import FirmwareTasks.Proofs.Files.Approach
import FirmwareTasks.Proofs.Files.Lexical
/-!
Paths that go down from a directory by names, in a tree without links. Such a path leads to the
place that it spells if something is there, unless it is refused for how it is written. With the
directories on the way to it a directory is made exactly if nothing else is on that way.
-/
namespace FirmwareTasks
open EStateM
open FirmwareTasks.Path (dot dotDot IsName slash)

namespace Tree
variable {t u : Tree} {K : Place → Prop} {site : Site} {base path : Path} {p q k : Place}
  {xs : List Bytes} {s : Bytes} {m n : ℕ} {e : Entry}

/-- A path that goes down by names, some at least, from where another leads. -/
structure Descends (base path : Path) (xs : List Bytes) : Prop extends
    Continues base path xs where
  ne_nil : xs ≠ []
  noSlash : path.endsInSlash = false

namespace Descends

lemma of_join {dir : Path} (h : dir.Ordinary) (base : Path) :
    Descends base (base.join dir) dir.names where
  toContinues := .of_join h base
  ne_nil := h.names_ne_nil
  noSlash := by rw [Path.endsInSlash_join h.bytes_ne_nil, h.not_endsInSlash]

lemma join {dir : Path} (h : Descends base path xs) (hdir : dir.Ordinary) :
    Descends base (path.join dir) (xs ++ dir.names) where
  toContinues := h.toContinues.join hdir
  ne_nil := by simp [h.ne_nil]
  noSlash := by rw [Path.endsInSlash_join hdir.bytes_ne_nil, hdir.not_endsInSlash]

lemma endsIn (h : Descends base path (xs ++ [s])) : path.EndsIn (base.names ++ xs) s where
  names := by rw [h.names, List.append_assoc]
  isName := by
    have hmem : s ∈ path.names := by simp [h.names]
    exact ⟨(Path.mem_names.1 hmem).2, h.isName s (by simp)⟩
  noSlash := h.noSlash

lemma exists_concat (h : Descends base path xs) : ∃ ys s, xs = ys ++ [s] := by
  obtain ⟨ys, s, hxs⟩ := xs.eq_nil_or_concat.resolve_left h.ne_nil
  exact ⟨ys, s, by rwa [List.concat_eq_append] at hxs⟩

lemma fits_join (h : Descends base path xs) (hfits : Fits path) (hn : IsName s ∧ slash ∉ s)
    (hzero : 0 ∉ s) (hlen : s.length ≤ nameLimit)
    (hlong : (path.join ⟨s⟩).bytes.length < pathLimit) : Fits (path.join ⟨s⟩) where
  check := by
    obtain ⟨ys, m, rfl⟩ := h.exists_concat
    obtain ⟨hzero', hne, -⟩ := check_eq_ok_iff.1 hfits.check
    refine check_eq_ok_iff.2 ⟨?_, (Path.endsIn_join_mk hn.1 hn.2 path).not_isEmpty, hlong⟩
    rw [Path.join_of_not_isAbsolute (Path.ordinary_mk hn.1 hn.2).not_isAbsolute hne h.noSlash]
    simp [hzero, hzero', slash]
  length_le x hx := by
    rw [(h.join (Path.ordinary_mk hn.1 hn.2)).names, Path.names_mk hn.1 hn.2, ← List.append_assoc,
      ← h.names] at hx
    rcases List.mem_append.1 hx with hx | hx
    · exact hfits.length_le x hx
    · exact List.mem_singleton.1 hx ▸ hlen

end Descends

/-- In a tree without links a path leads to a directory. -/
structure Footed (t : Tree) (site : Site) (base : Path) : Prop where
  linkless : t.Linkless
  leads : t.PathLeads site (fun _ => True) base (site.spell base)
  dir : t.at? (site.spell base) = some .dir

namespace Footed

lemma grow (h : t.Footed site base) (htu : t ≤ u) (hu : u.Linkless) : u.Footed site base := by
  obtain ⟨m, hm⟩ := h.leads
  exact ⟨hu, ⟨m, hm.extend (by simp [h.dir]) htu⟩, htu _ _ h.dir⟩

lemma of_isDirAt (ht : t.Linkless) (hpath : Continues base path xs)
    (h : t.isDirAt site path = true) : t.Footed site base := by
  obtain ⟨-, q, ⟨m, hm⟩, hq⟩ := isDirAt_iff.1 h
  rw [hpath.names, hpath.startOf_eq] at hm
  obtain ⟨r, l, hr, hrest⟩ := hm.split
  obtain rfl : r = site.spell base := ht.eq_of_walk hr.walk_eq
  exact ⟨ht, ⟨l, hr⟩, hrest.start_dir hq⟩

variable (h : t.Footed site base)
include h

lemma approaches (hpath : Continues base path xs) :
    t.Approaches site path (site.spell base) xs := by
  obtain ⟨m, hm⟩ := h.leads
  refine ⟨⟨base.names, m, hpath.names, ?_⟩, h.dir, hpath.isName⟩
  rwa [hpath.startOf_eq]

lemma pathLeads (hpath : Continues base path xs) (hlen : ∀ x ∈ xs, x.length ≤ nameLimit)
    (hsome : (t.at? (site.spell path)).isSome) :
    t.PathLeads site (fun _ => True) path (site.spell path) := by
  obtain ⟨m, hm⟩ := h.leads
  rw [hpath.spell_eq] at hsome ⊢
  refine ⟨m, ?_⟩
  rw [hpath.names, hpath.startOf_eq]
  exact hm.append (leads_below h.linkless.noLinks hpath.isName hlen hsome)

/-- A path that goes down leads to the place that it spells, if something is there. -/
theorem follow_eq_ok_iff (hpath : Descends base path xs) :
    t.follow site path = .ok q ↔
      q = site.spell path ∧ Fits path ∧ (t.at? (site.spell path)).isSome := by
  have hsteps : path.steps = path.names := by
    rw [Path.steps_eq, hpath.noSlash]
    exact List.append_nil _
  rw [Tree.follow_eq_ok_iff, hsteps]
  constructor
  · rintro ⟨hc, hwalk⟩
    obtain ⟨m, hm⟩ := leads_of_walk hwalk
    obtain rfl : q = site.spell path := h.linkless.eq_of_walk hwalk
    have hstart : t.at? (startOf site.cwd path) = some .dir := by
      obtain ⟨l, hl⟩ := h.leads
      rw [hpath.startOf_eq]
      exact hl.start_dir h.dir
    exact ⟨rfl, ⟨hc, hm.length_le⟩, (hm.present (by simp [hstart])).stop.2⟩
  · rintro ⟨rfl, hfits, hsome⟩
    have hlen : ∀ x ∈ xs, x.length ≤ nameLimit := fun x hx =>
      hfits.length_le x (by simp [hpath.names, hx])
    obtain ⟨m, hm⟩ := h.pathLeads hpath.toContinues hlen hsome
    exact ⟨hfits.check, hm.walk_eq⟩

lemma existsAt_iff (hpath : Descends base path xs) :
    t.existsAt site path = true ↔ Fits path ∧ (t.at? (site.spell path)).isSome := by
  have hiff := h.follow_eq_ok_iff (q := site.spell path) hpath
  rw [existsAt]
  constructor
  · intro hex
    split at hex
    · rename_i q hq
      exact ((h.follow_eq_ok_iff hpath).1 hq).2
    · cases hex
  · intro hex
    rw [hiff.2 ⟨rfl, hex⟩]

lemma isDirAt_iff (hpath : Continues base path xs) :
    t.isDirAt site path = true ↔ Fits path ∧ t.at? (site.spell path) = some .dir := by
  rw [Tree.isDirAt_iff]
  constructor
  · rintro ⟨hc, q, ⟨m, hm⟩, hq⟩
    obtain rfl : q = site.spell path := h.linkless.eq_of_walk hm.walk_eq
    exact ⟨⟨hc, hm.length_le⟩, hq⟩
  · rintro ⟨hfits, hdir⟩
    have hlen : ∀ x ∈ xs, x.length ≤ nameLimit := fun x hx =>
      hfits.length_le x (by simp [hpath.names, hx])
    exact ⟨hfits.check, _, h.pathLeads hpath hlen (by simp [hdir]), hdir⟩

lemma slot (hpath : Continues base path (xs ++ [s])) (hfits : Fits path)
    (hdir : t.at? (below (site.spell base) xs) = some .dir) :
    t.slot site path = .ok ⟨below (site.spell base) xs, .name s⟩ := by
  obtain ⟨m, hm⟩ := h.leads
  have hnames : path.names = (base.names ++ xs) ++ [s] := by rw [hpath.names, List.append_assoc]
  have hxs : ∀ x ∈ xs, x ≠ dot ∧ x ≠ dotDot := fun x hx => hpath.isName x (by simp [hx])
  have hlen : ∀ x ∈ xs, x.length ≤ nameLimit := fun x hx =>
    hfits.length_le x (by simp [hnames, hx])
  have hway := hm.append (leads_below h.linkless.noLinks hxs hlen (by simp [hdir]))
  refine (slot_eq_ok_iff hnames).2 ⟨hfits.check, ?_, ?_, hdir⟩
  · exact (Last.ofStep_of_name (hpath.isName s (by simp))).symm
  · rw [hpath.startOf_eq]
    exact hway.walk_eq

lemma locate_eq (hpath : Descends base path xs) (hfits : Fits path)
    (hdir : t.at? (site.spell path) = some .dir) : t.locate site path = .ok (site.spell path) := by
  obtain ⟨ys, s, rfl⟩ := hpath.exists_concat
  rw [hpath.spell_eq, below_concat] at hdir ⊢
  refine (locate_eq_ok_iff hpath.endsIn).2 ⟨_, .dir, rfl, ?_, ?_⟩
  · exact h.slot hpath.toContinues hfits (at?_eq_dir_of_cons hdir)
  · exact child?_eq_ok_iff.2 ⟨hfits.length_le s (by simp [hpath.names]), hdir⟩

lemma clear (hway : ∀ n, ¬Through site base (n :: q)) : (t.clear q).Footed site base := by
  let K (k : Place) : Prop := ¬(q <:+ k ∧ q ≠ k)
  have hK (ys : List Bytes) (hys : ys <+: base.names) : K (spell (startOf site.cwd base) ys) := by
    rintro ⟨⟨r, hr⟩, hne⟩
    rcases r.eq_nil_or_concat with rfl | ⟨r, n, rfl⟩
    · exact hne hr
    · refine hway n ⟨ys, hys, r, ?_⟩
      rw [← hr, List.concat_eq_append, List.append_assoc]
      rfl
  have hkept (k : Place) (hk : K k) : t.at? k = (t.clear q).at? k := by rw [at?_clear', if_neg hk]
  obtain ⟨l, hl⟩ := h.leads
  obtain ⟨m, hm⟩ := h.linkless.pathHeads hK
  have hwalk := hl.walk_eq
  rw [← List.append_nil base.names] at hwalk
  have hlead := (hm.leads hwalk).congr hkept
  refine ⟨fun k target hk => h.linkless k target (t.clear_le q k _ hk), ⟨m, ?_⟩, ?_⟩
  · exact hlead.mono fun _ _ => trivial
  · rw [← hkept _ hlead.stop, h.dir]

/-- A directory is gone when it has been removed, unless its path goes through what was in it. -/
theorem at?_without (hpath : Continues base path (xs ++ [s])) (hfits : Fits path)
    (hdir : t.at? (site.spell path) = some .dir) :
    (t.without site path (site.spell path)).at? (site.spell path) = none ∨
      (t.without site path (site.spell path)).at? (site.spell path) = some .dir ∧
        ∃ n, Through site base (n :: site.spell path) := by
  have hspell : site.spell path = s :: below (site.spell base) xs := by
    rw [hpath.spell_eq, below_concat]
  rw [hspell] at hdir ⊢
  by_cases hlost : t.at? (s :: below (site.spell base) xs) = some .dir ∧
      (t.clear (s :: below (site.spell base) xs)).slot site path = .error .noEntry
  · rw [without, if_pos hlost, at?_clear', if_neg (by simp)]
    refine .inr ⟨hdir, ?_⟩
    by_contra! hway
    have houter : (t.clear (s :: below (site.spell base) xs)).at? (below (site.spell base) xs) =
        some .dir := by
      rw [at?_clear', if_neg fun hin => not_cons_suffix s _ hin.1, at?_eq_dir_of_cons hdir]
    rw [(h.clear hway).slot hpath hfits houter] at hlost
    cases hlost.2
  · rw [without, if_neg hlost, at?_erase_cons, if_pos List.suffix_rfl]
    exact .inl rfl

end Footed

end Tree

namespace Files
open FirmwareTasks.Tree (Footed Continues Descends Fits Paved below)
variable {t u : Tree} {site : Site} {base c : Path} {xs : List Bytes} {s : Bytes}

/-- A directory is made, with those on the way to it, exactly if its path can be given to the system
and nothing else is at and around its place. -/
theorem makeDirs_settles (h : t.Footed site base) (hpath : Descends base c xs) :
    (makeDirs site c t).Settles (Fits c ∧ t.Passable (site.spell c)) (Paved (site.spell c) t) := by
  obtain ⟨ys, s, rfl⟩ := hpath.exists_concat
  have hends := hpath.endsIn
  have hdone (hcond : Fits c ∧ t.Passable (site.spell c)) :
      ∃ u, makeDirs site c t = .ok () u ∧ Paved (site.spell c) t u := by
    have hnear := h.approaches hpath.toContinues
    obtain ⟨hfits, hway⟩ := hcond
    rw [hpath.spell_eq] at hway ⊢
    rcases hnear.deepest (hnear.length_le hfits) hway with hdir | ⟨p, w, ws, hnear, hfree, hbelow⟩
    · have hisDir := (h.isDirAt_iff hpath.toContinues).2 ⟨hfits, hpath.spell_eq site ▸ hdir⟩
      exact ⟨t, makeDirs_of_isDirAt hends.names hends.isName.2 hisDir, Tree.paved_of_dir hdir⟩
    · have hmake := makeDirs_ends hnear hfree
      rw [hbelow] at hmake
      cases hrun : makeDirs site c t with
      | ok _ u =>
        rw [hrun] at hmake
        exact ⟨u, rfl, hmake.2⟩
      | error e u =>
        rw [hrun] at hmake
        exact absurd hfits hmake.1
  cases hmake : makeDirs site c t with
  | ok _ u =>
    have hgrown := grown_makeDirsIn hmake
    have hu : u.Footed site base := h.grow hgrown.le (hgrown.linkless h.linkless)
    have hisDir := isDirAt_of_makeDirsIn hends.not_isEmpty hmake
    obtain ⟨hfits, hdir⟩ := (hu.isDirAt_iff hpath.toContinues).1 hisDir
    have hway : t.Passable (site.spell c) := by
      intro k hk
      have hkdir := Tree.at?_eq_dir_of_suffix hk hdir
      rcases hgrown k with hsame | ⟨hnone, -⟩
      · exact .inr (hsame ▸ hkdir)
      · exact .inl hnone
    obtain ⟨v, hv, hpaved⟩ := hdone ⟨hfits, hway⟩
    rw [hmake] at hv
    cases hv
    exact ⟨⟨hfits, hway⟩, hpaved⟩
  | error e u =>
    intro hcond
    obtain ⟨v, hv, -⟩ := hdone hcond
    rw [hmake] at hv
    cases hv

end Files
end FirmwareTasks
