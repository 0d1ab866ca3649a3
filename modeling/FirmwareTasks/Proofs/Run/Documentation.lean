import FirmwareTasks.Proofs.Files.Grafting
import FirmwareTasks.Proofs.Run.Agreement
import FirmwareTasks.Proofs.Run.Clean
import FirmwareTasks.Proofs.Run.CopyTree
/-!
Putting the output of doxygen where the documentation build looks for it. It is copied, and only
when it is there whole the original is removed; so whatever goes wrong, the original is still there.
-/
namespace FirmwareTasks
open EStateM
open Files
open FirmwareTasks.Tree (Descends Grafted Through)

variable {σ : Type}

namespace Files
variable {site : Site} {base src dst : Path} {xs ys : List Bytes} {t u v : Tree}

/-- What comes of taking a directory elsewhere: all of it is there, and the original is gone but for
an empty directory, where the path goes through what was in it; nothing else has changed but that
there are directories on the way. -/
structure Staged (site : Site) (base src dst : Path) (t u : Tree) : Prop where
  copy : ∀ r, u.at? (r ++ site.spell dst) = t.at? (r ++ site.spell src)
  inner : ∀ r ≠ [], u.at? (r ++ site.spell src) = none
  gone : u.at? (site.spell src) = none ∨
    u.at? (site.spell src) = some .dir ∧ ∃ n, Through site base (n :: site.spell src)
  unnamed : u.locate site src = .error .noEntry
  rest : ∀ k, ¬site.spell src <:+ k → ¬site.spell dst <:+ k →
    u.at? k = if k <:+ site.spell dst then some .dir else t.at? k

lemma removeIfThere_of_grafted (ht : t.Linkless) (hsrc : Descends base src xs)
    (hisDir : t.isDirAt site src = true) (hfree : t.at? (site.spell dst) = none)
    (hway : t.Passable (site.spell dst)) (hoff : ¬site.spell src <:+ site.spell dst)
    (h : Grafted (site.spell src) (site.spell dst) t v) :
    ∃ u, removeIfThere site src v = .ok true u ∧ Staged site base src dst t u := by
  have hfoot : t.Footed site base := .of_isDirAt ht hsrc.toContinues hisDir
  have hv : v.Footed site base := hfoot.grow (h.le hfree hway) (h.linkless ht)
  obtain ⟨hfits, hdir⟩ := (hfoot.isDirAt_iff hsrc.toContinues).1 hisDir
  have hdir' : v.at? (site.spell src) = some .dir := h.le hfree hway _ _ hdir
  have hlocate := hv.locate_eq hsrc hfits hdir'
  obtain ⟨zs, s, rfl⟩ := hsrc.exists_concat
  have hends := hsrc.endsIn
  have hspell : site.spell src = s :: Tree.below (site.spell base) zs := by
    rw [hsrc.spell_eq, Tree.below_concat]
  have hremove : removeIfThere site src v = .ok true (v.without site src (site.spell src)) := by
    rw [removeIfThere_eq site hends, hlocate]
  refine ⟨_, hremove, ?_⟩
  have hkept {k : Place} (hk : ¬site.spell src <:+ k) :
      (v.without site src (site.spell src)).at? k = v.at? k := by
    rw [hspell] at hk ⊢
    exact Tree.at?_without hk
  constructor
  case copy =>
    intro r
    rw [hkept, h.copy]
    intro hin
    rcases List.suffix_or_suffix_of_suffix hin (List.suffix_append r _) with hin | hin
    · exact hoff hin
    · rw [Tree.at?_eq_none_of_suffix hin hfree] at hdir
      cases hdir
  case inner =>
    intro r hr
    have hne : site.spell src ≠ r ++ site.spell src := fun heq => hr (by simpa using heq.symm)
    rw [hspell] at hne ⊢
    exact Tree.at?_without_inside (List.suffix_append r _) hne
  case gone => exact hv.at?_without hsrc.toContinues hfits hdir'
  case unnamed => exact locate_of_removeIfThere hends hremove
  case rest =>
    intro k hk hk'
    rw [hkept hk, h.rest k hk']

end Files

namespace Context
variable (ctx : Context σ)

/-- Where doxygen writes what the documentation build takes. -/
def doxyWritten : Path := ctx.doxyOut.join (.ofString "xml")

variable {ctx}

lemma descends_doxyWritten (hout : ctx.config.layout.doxyOutDir.Ordinary) :
    Descends ctx.documentationBase ctx.doxyWritten
      (ctx.config.layout.doxyOutDir.names ++ [word "xml"]) :=
  (Descends.of_join hout _).join (Path.ordinary_mk (by decide +kernel) (by decide +kernel))

lemma descends_doxyXml (hxml : ctx.config.layout.doxyXmlDir.Ordinary) :
    Descends ctx.documentationBase ctx.doxyXml ctx.config.layout.doxyXmlDir.names :=
  .of_join hxml _

lemma not_spell_suffix (hout : ctx.config.layout.doxyOutDir.Ordinary)
    (hxml : ctx.config.layout.doxyXmlDir.Ordinary)
    (hoff : ¬ctx.config.layout.doxyOutDir.names ++ [word "xml"] <+:
      ctx.config.layout.doxyXmlDir.names) :
    ¬ctx.site.spell ctx.doxyWritten <:+ ctx.site.spell ctx.doxyXml := by
  rwa [(descends_doxyWritten hout).spell_eq, (descends_doxyXml hxml).spell_eq,
    Tree.below_suffix_iff]

section staging
variable (hout : ctx.config.layout.doxyOutDir.Ordinary)
  (hxml : ctx.config.layout.doxyXmlDir.Ordinary)
  (hoff : ¬ctx.config.layout.doxyOutDir.names ++ [word "xml"] <+:
    ctx.config.layout.doxyXmlDir.names)
include hout hxml hoff

/-- How the output of doxygen is taken to where the documentation build looks for it. -/
theorem collect_doxy {l : World σ} (hplain : l.tree.Plain) :
    let src := ctx.site.spell ctx.doxyWritten
    let dst := ctx.site.spell ctx.doxyXml
    ((∃ u, ctx.collect .doxy l = .ok () u) ↔
      l.tree.isDirAt ctx.site ctx.doxyWritten = true ∧ l.tree.at? dst = none ∧
        l.tree.Passable dst ∧ l.tree.CopyFits src ctx.doxyWritten ctx.doxyXml) ∧
    (∀ u, ctx.collect .doxy l = .ok () u →
      Staged ctx.site ctx.documentationBase ctx.doxyWritten ctx.doxyXml l.tree u.tree) ∧
    ∀ e u, ctx.collect .doxy l = .error e u →
      ∀ r, u.tree.at? (r ++ src) = l.tree.at? (r ++ src) := by
  intro src dst
  have hsrc := descends_doxyWritten hout
  have hdst := descends_doxyXml hxml
  have hoff := not_spell_suffix hout hxml hoff
  have htidy : l.tree.Tidy src := fun r n => hplain.isName n (r ++ src)
  have hcopy := copyWhole_settles hplain.linkless hsrc hdst hoff htidy
  have hcollect : ctx.collect .doxy l =
      (Act.copyTree ctx.site ctx.doxyWritten ctx.doxyXml >>= fun _ =>
        Act.ensureAbsent ctx.site ctx.doxyWritten) l := rfl
  rw [hcollect]
  cases hrun : copyWhole ctx.site ctx.doxyWritten ctx.doxyXml l.tree with
  | ok _ t =>
    rw [hrun] at hcopy
    obtain ⟨hcond, hgraft⟩ := hcopy
    obtain ⟨v, hv, rfl⟩ := Act.copyTree_of_ok hrun
    obtain ⟨u, hremove, hstaged⟩ := removeIfThere_of_grafted hplain.linkless hsrc hcond.1
      hcond.2.1 hcond.2.2.1 hoff hgraft
    obtain ⟨es, hclean, -⟩ := Act.ensureAbsent_of_ok hremove
    rw [bind_of_ok hv, hclean]
    refine ⟨⟨fun _ => hcond, fun _ => ⟨_, rfl⟩⟩, ?_, ?_⟩
    · rintro _ ⟨⟩
      exact hstaged
    · rintro _ _ ⟨⟩
  | error e t =>
    rw [hrun] at hcopy
    rw [bind_of_error (Act.copyTree_of_error hrun)]
    refine ⟨⟨?_, fun hcond => absurd hcond hcopy⟩, ?_, ?_⟩
    · rintro ⟨u, ⟨⟩⟩
    · rintro _ ⟨⟩
    · rintro _ _ ⟨⟩
      exact at?_of_copyWhole_error hplain hsrc hdst hoff hrun

/-- Once doxygen has returned and there are no links, the task ends well exactly if doxygen has
succeeded, its output is there and nothing is where it goes, nothing but directories is on the way
there, and every path of the copy can be given to the system. Then all of the output is there, and
nothing else has changed; otherwise the output is still where doxygen has written it. -/
theorem documentation_is_staged_whole {w v : World σ} {inv : Invocation}
    (hready : ctx.prepare .doxy w = .ok (some inv) v)
    (hplain : (ctx.launch inv v).state.tree.Plain) :
    let t := (ctx.launch inv v).state.tree
    let src := ctx.site.spell ctx.doxyWritten
    let dst := ctx.site.spell ctx.doxyXml
    ((∃ u, ctx.body .doxy w = .ok () u) ↔
      (∃ l, ctx.launch inv v = .ok () l) ∧ t.isDirAt ctx.site ctx.doxyWritten = true ∧
        t.at? dst = none ∧ t.Passable dst ∧ t.CopyFits src ctx.doxyWritten ctx.doxyXml) ∧
    (∀ u, ctx.body .doxy w = .ok () u →
      Staged ctx.site ctx.documentationBase ctx.doxyWritten ctx.doxyXml t u.tree) ∧
    ∀ e u, ctx.body .doxy w = .error e u → ∀ r, u.tree.at? (r ++ src) = t.at? (r ++ src) := by
  intro t src dst
  have hbody : ctx.body .doxy w = (ctx.launch inv >>= fun _ => ctx.collect .doxy) v := by
    rw [body_eq, bind_of_ok hready]
    rfl
  rw [hbody]
  cases hlaunch : ctx.launch inv v with
  | ok _ l =>
    have ht : t = l.tree := congrArg (fun r => (Result.state r).tree) hlaunch
    have hplain : l.tree.Plain := ht ▸ hplain
    have hdone : ∃ x, Result.ok () l = (.ok () x : Result Error (World σ) Unit) := ⟨l, rfl⟩
    rw [bind_of_ok hlaunch, ht, and_iff_right hdone]
    exact collect_doxy hout hxml hoff hplain
  | error e l =>
    have ht : t = l.tree := congrArg (fun r => (Result.state r).tree) hlaunch
    rw [bind_of_error hlaunch, ht]
    refine ⟨⟨?_, ?_⟩, ?_, ?_⟩
    · rintro ⟨u, ⟨⟩⟩
    · rintro ⟨⟨u, ⟨⟩⟩, -⟩
    · rintro _ ⟨⟩
    · rintro _ _ ⟨⟩ _
      rfl

end staging

/-- A project whose doxygen adds an index to its output. -/
def documenting (root : Path) : Context Unit where
  config := { Config.builtIn with paths := [] }
  root
  ci := false
  inherited := none
  site := { cwd := [] }
  runner _ _ t :=
    let written := ["xml", "doxy", "docs", "build", "project"].map word
    let t := if t.at? written = none then t.insert written .dir else t
    let index := .file (word "<doxygenindex/>") false
    ⟨(), t.insert (word "index.xml" :: written) index, [], .ok ()⟩

/-- A project in which doxygen has written before. -/
def documented : Tree :=
  let places := (["sub", "xml", "doxy", "docs", "build", "project"].map word).tails.reverse.tail
  places.foldl (fun t p => t.insert p .dir) .empty

lemma documenting_layout (root : Path) :
    let layout := (documenting root).config.layout
    layout.doxyOutDir.Ordinary ∧ layout.doxyXmlDir.Ordinary ∧
      ¬layout.doxyOutDir.names ++ [word "xml"] <+: layout.doxyXmlDir.names := by
  let layout := Config.builtIn.layout
  change layout.doxyOutDir.Ordinary ∧ layout.doxyXmlDir.Ordinary ∧
    ¬layout.doxyOutDir.names ++ [word "xml"] <+: layout.doxyXmlDir.names
  decide +kernel

theorem documentation_is_staged_whole_documented :
    let ctx := documenting (.ofString "project")
    ctx.config.layout.doxyOutDir.Ordinary ∧ ctx.config.layout.doxyXmlDir.Ordinary ∧
    (¬ctx.config.layout.doxyOutDir.names ++ [word "xml"] <+: ctx.config.layout.doxyXmlDir.names) ∧
    ∃ inv v u, ctx.prepare .doxy ⟨documented, (), []⟩ = .ok (some inv) v ∧
      (ctx.launch inv v).state.tree.Plain ∧ ctx.body .doxy ⟨documented, (), []⟩ = .ok () u ∧
      Staged ctx.site ctx.root ctx.doxyWritten ctx.doxyXml (ctx.launch inv v).state.tree
        u.tree := by
  intro ctx
  obtain ⟨hout, hxml, hoff⟩ := documenting_layout (.ofString "project")
  obtain ⟨l, hl, hplain⟩ : ∃ l ∈ ctx.afterTool .doxy ⟨documented, (), []⟩, l.tree.Plain := by
    decide +kernel
  obtain ⟨u, hbody⟩ : ∃ u, ctx.body .doxy ⟨documented, (), []⟩ = .ok () u := by decide +kernel
  obtain ⟨inv, v, hready, hlaunch⟩ := ctx.afterTool_eq_some_iff.1 hl
  have hplain : (ctx.launch inv v).state.tree.Plain := by
    rw [hlaunch]
    exact hplain
  obtain ⟨-, hstaged, -⟩ := documentation_is_staged_whole hout hxml hoff hready hplain
  exact ⟨hout, hxml, hoff, inv, v, u, hready, hplain, hbody, hstaged u hbody⟩

/-- A way to the project that is written with so many slashes that a file of the output can still be
named, but not its copy. -/
def slashes : Path := ⟨word "project" ++ List.replicate 4059 Path.slash⟩

/-- A way to the project through the output of doxygen. -/
def throughOutput : Path := .ofString "project/build/docs/doxy/xml/sub/../../../../.."

/-- Where the path of a copy is too long the output is not taken elsewhere, though nothing is in its
way; and where the project is reached through the output, a directory stays behind. -/
theorem documentation_not_staged_whole :
    documented.Plain ∧
    (∀ root ∈ [slashes, throughOutput],
      let layout := (documenting root).config.layout
      documented.isDirAt (documenting root).site root = true ∧
        layout.doxyOutDir.Ordinary ∧ layout.doxyXmlDir.Ordinary ∧
        ¬layout.doxyOutDir.names ++ [word "xml"] <+: layout.doxyXmlDir.names) ∧
    (∃ l e u, let ctx := documenting slashes
      ctx.afterTool .doxy ⟨documented, (), []⟩ = some l ∧ l.tree.Plain ∧
        l.tree.isDirAt ctx.site ctx.doxyWritten = true ∧
        l.tree.at? (ctx.site.spell ctx.doxyXml) = none ∧
        l.tree.Passable (ctx.site.spell ctx.doxyXml) ∧
        ctx.body .doxy ⟨documented, (), []⟩ = .error e u) ∧
    ∃ l u, let ctx := documenting throughOutput
      ctx.afterTool .doxy ⟨documented, (), []⟩ = some l ∧ l.tree.Plain ∧
        ctx.body .doxy ⟨documented, (), []⟩ = .ok () u ∧
        u.tree.at? (ctx.site.spell ctx.doxyWritten) = some .dir := by
  have hroot : ∀ root ∈ [slashes, throughOutput],
      documented.isDirAt (documenting root).site root = true := by
    decide +kernel
  refine ⟨by decide +kernel, fun root h => ⟨hroot root h, documenting_layout root⟩, ?_, ?_⟩
  · obtain ⟨l, hl, hplain, hdir, hfree, hway⟩ : let ctx := documenting slashes
        ∃ l ∈ ctx.afterTool .doxy ⟨documented, (), []⟩, l.tree.Plain ∧
          l.tree.isDirAt ctx.site ctx.doxyWritten = true ∧
          l.tree.at? (ctx.site.spell ctx.doxyXml) = none ∧
          l.tree.Passable (ctx.site.spell ctx.doxyXml) := by
      decide +kernel
    obtain ⟨e, u, hbody⟩ :
        ∃ e u, (documenting slashes).body .doxy ⟨documented, (), []⟩ = .error e u := by
      decide +kernel
    exact ⟨l, e, u, hl, hplain, hdir, hfree, hway, hbody⟩
  · obtain ⟨l, hl, hplain⟩ : ∃ l ∈ (documenting throughOutput).afterTool .doxy
        ⟨documented, (), []⟩, l.tree.Plain := by
      decide +kernel
    obtain ⟨u, hbody, hstays⟩ : let ctx := documenting throughOutput
        ∃ u, ctx.body .doxy ⟨documented, (), []⟩ = .ok () u ∧
          u.tree.at? (ctx.site.spell ctx.doxyWritten) = some .dir := by
      decide +kernel
    exact ⟨l, u, hl, hplain, hbody, hstays⟩

end Context
end FirmwareTasks
