import FirmwareTasks.Proofs.Files.Approach
/-!
Copying a directory into a free name that is not inside it. What is in the directory is at the
target as well, with each link replaced by the file that it leads to. A copy that fails has met a
path that is refused for how it is written, or a link that leads to no file; it has changed nothing
but at the target and on the way there.
-/
namespace FirmwareTasks
open EStateM
open FirmwareTasks.Path (IsName slash)

namespace Path

/-- The path of what is inside the directory of a path, the innermost name first. -/
def inside (p : Path) : Place → Path
  | [] => p
  | n :: r => (p.inside r).join ⟨n⟩

lemma inside_concat (p : Path) (r : Place) (n : Bytes) :
    p.inside (r ++ [n]) = (p.join ⟨n⟩).inside r := by
  induction r with
  | nil => rfl
  | cons m r ih => rw [List.cons_append, inside, inside, ih]

lemma length_lt_join {n : Bytes} (hn : IsName n ∧ slash ∉ n) (p : Path) :
    p.bytes.length < (p.join ⟨n⟩).bytes.length := by
  have hpos := List.length_pos_of_ne_nil hn.1.1
  rw [join, if_neg (by simp [(ordinary_mk hn.1 hn.2).not_isAbsolute])]
  split
  · simpa using hpos
  · simp only [List.length_append, List.length_cons]
    omega

lemma length_le_inside {r : Place} (hr : ∀ n ∈ r, IsName n ∧ slash ∉ n) (p : Path) :
    p.bytes.length + r.length ≤ (p.inside r).bytes.length := by
  induction r with
  | nil => exact le_rfl
  | cons n r ih =>
    obtain ⟨hn, hr⟩ := List.forall_mem_cons.1 hr
    have hlt := length_lt_join hn (p.inside r)
    have hle := ih hr
    rw [inside, List.length_cons]
    omega

end Path

namespace Tree
variable {t u v : Tree} {site : Site} {src dst path : Path} {a b k p q : Place} {m n : Bytes}
  {c : Bytes} {x : Bool} {ns : List Bytes} {e : Entry}

lemma eq_of_cons_suffix {r : Place} (h : (m :: b) <:+ r ++ n :: b) : m = n := by
  have hsame := List.suffix_of_suffix_length_le h (List.suffix_append r (n :: b)) (by simp)
  exact (List.cons.inj (hsame.eq_of_length (by simp))).1

lemma forall_moving_iff {P : Place → Entry → Prop} :
    (∀ ke ∈ t.moving (n :: p) [], P ke.1 ke.2) ↔
      ∀ r e, t.at? (r ++ n :: p) = some e → P r e := by
  have hat (r : Place) : t.entries[r ++ n :: p]? = t.at? (r ++ n :: p) :=
    (at?_of_ne_root (by simp)).symm
  simp only [Prod.forall, mem_moving, List.append_nil, hat]
  exact ⟨fun h r e he => h r e ⟨r, rfl, he⟩, fun h k e ⟨r, hk, he⟩ => hk ▸ h r e he⟩

/-- What is in a place has proper names. -/
def Tidy (t : Tree) (a : Place) : Prop :=
  ∀ r n, (t.at? (n :: (r ++ a))).isSome → IsName n ∧ slash ∉ n

instance (t : Tree) (n : Bytes) (p : Place) : Decidable (t.Tidy (n :: p)) :=
  decidable_of_iff (∀ ke ∈ t.moving (n :: p) [], ∀ m ∈ ke.1.head?, IsName m ∧ slash ∉ m) <| by
    rw [forall_moving_iff (P := fun r _ => ∀ m ∈ r.head?, IsName m ∧ slash ∉ m)]
    constructor
    · intro h r m hsome
      obtain ⟨e, he⟩ := Option.isSome_iff_exists.1 hsome
      exact h (m :: r) e he m rfl
    · intro h r e he m hm
      obtain ⟨r, rfl⟩ := List.head?_eq_some_iff.1 hm
      exact h r m (Option.isSome_iff_exists.2 ⟨e, he⟩)

lemma Tidy.cons (h : t.Tidy a) (n : Bytes) : t.Tidy (n :: a) := by
  intro r m hsome
  apply h (r ++ [n]) m
  rwa [List.append_assoc]

lemma Tidy.congr (h : t.Tidy a) (hu : ∀ r, u.at? (r ++ a) = t.at? (r ++ a)) : u.Tidy a := by
  intro r n hsome
  have hsame := hu (n :: r)
  rw [List.cons_append] at hsame
  exact h r n (hsame ▸ hsome)

/-- Every path of a copy can be given to the system. -/
def CopyFits (t : Tree) (a : Place) (src dst : Path) : Prop :=
  ∀ r, (t.at? (r ++ a)).isSome → Fits (src.inside r) ∧ Fits (dst.inside r)

instance (t : Tree) (n : Bytes) (p : Place) (src dst : Path) :
    Decidable (t.CopyFits (n :: p) src dst) :=
  decidable_of_iff
    (∀ ke ∈ t.moving (n :: p) [], Fits (src.inside ke.1) ∧ Fits (dst.inside ke.1)) <| by
    rw [forall_moving_iff (P := fun r _ => Fits (src.inside r) ∧ Fits (dst.inside r))]
    simp only [CopyFits, Option.isSome_iff_exists, forall_exists_index]

lemma copyFits_congr (h : ∀ r, u.at? (r ++ a) = t.at? (r ++ a)) :
    u.CopyFits a src dst ↔ t.CopyFits a src dst :=
  forall_congr' fun r => by rw [h r]

lemma forall_inside_iff {P : Place → Prop} (h : (t.at? a).isSome) :
    (∀ r, (t.at? (r ++ a)).isSome → P r) ↔
      P [] ∧ ∀ n, (t.at? (n :: a)).isSome → ∀ r, (t.at? (r ++ n :: a)).isSome → P (r ++ [n]) := by
  constructor
  · intro hall
    refine ⟨hall [] h, fun n _ r hr => hall (r ++ [n]) ?_⟩
    rwa [List.append_assoc]
  · rintro ⟨hroot, hinner⟩ r hr
    rcases r.eq_nil_or_concat with rfl | ⟨r, n, rfl⟩
    · exact hroot
    · rw [List.concat_eq_append] at hr ⊢
      rw [List.append_assoc, List.singleton_append] at hr
      refine hinner n ?_ r hr
      by_contra hnone
      rw [Option.not_isSome_iff_eq_none] at hnone
      rw [at?_eq_none_of_suffix (List.suffix_append _ _) hnone] at hr
      cases hr

lemma copyFits_iff (h : t.at? a = some e) :
    t.CopyFits a src dst ↔ (Fits src ∧ Fits dst) ∧
      ∀ n, (t.at? (n :: a)).isSome → t.CopyFits (n :: a) (src.join ⟨n⟩) (dst.join ⟨n⟩) := by
  rw [CopyFits, forall_inside_iff (by simp [h])]
  simp only [Path.inside_concat]
  rfl

def LinksLead (t : Tree) (site : Site) (a : Place) (src : Path) : Prop :=
  ∀ r target, t.at? (r ++ a) = some (.link target) → t.isFileAt site (src.inside r) = true

instance (t : Tree) (site : Site) (n : Bytes) (p : Place) (src : Path) :
    Decidable (t.LinksLead site (n :: p) src) :=
  decidable_of_iff
    (∀ ke ∈ t.moving (n :: p) [], ke.2.isDir ∨ ke.2.isFile ∨
      t.isFileAt site (src.inside ke.1) = true) <| by
    rw [forall_moving_iff (P := fun r e => e.isDir ∨ e.isFile ∨
      t.isFileAt site (src.inside r) = true)]
    constructor
    · intro h r target hlink
      simpa [Entry.isDir, Entry.isFile] using h r _ hlink
    · intro h r e he
      cases e with
      | dir => exact .inl rfl
      | file => exact .inr (.inl rfl)
      | link target => exact .inr (.inr (h r target he))

lemma LinksLead.grow (h : t.LinksLead site a src) (htu : t ≤ u)
    (hu : ∀ r, u.at? (r ++ a) = t.at? (r ++ a)) : u.LinksLead site a src := by
  intro r target hlink
  exact isFileAt_mono htu (h r target ((hu r).symm.trans hlink))

lemma linksLead_iff_of_dir (h : t.at? a = some .dir) :
    t.LinksLead site a src ↔
      ∀ n, (t.at? (n :: a)).isSome → t.LinksLead site (n :: a) (src.join ⟨n⟩) := by
  have hiff := forall_inside_iff (t := t) (a := a) (by simp [h])
    (P := fun r => ∀ target, t.at? (r ++ a) = some (.link target) →
      t.isFileAt site (src.inside r) = true)
  have hsome {P : Place → Prop} {a : Place} :
      (∀ r, (t.at? (r ++ a)).isSome → ∀ target, t.at? (r ++ a) = some (.link target) → P r) ↔
        ∀ r target, t.at? (r ++ a) = some (.link target) → P r :=
    forall_congr' fun r => ⟨fun hr target hlink => hr (by simp [hlink]) target hlink,
      fun hr _ => hr⟩
  rw [hsome] at hiff
  rw [LinksLead, hiff]
  simp only [List.append_assoc, List.singleton_append, hsome, Path.inside_concat]
  rw [and_iff_right (by simp [h])]
  rfl

/-- Every path of a copy can be given to the system, and every link that is copied leads to a
regular file. -/
structure Copyable (t : Tree) (site : Site) (a : Place) (src dst : Path) : Prop where
  fits : t.CopyFits a src dst
  links : t.LinksLead site a src

lemma Copyable.grow (h : t.Copyable site a src dst) (htu : t ≤ u)
    (hu : ∀ r, u.at? (r ++ a) = t.at? (r ++ a)) : u.Copyable site a src dst :=
  ⟨(copyFits_congr hu).2 h.fits, h.links.grow htu hu⟩

lemma copyable_iff_of_dir (h : t.at? a = some .dir) :
    t.Copyable site a src dst ↔ (Fits src ∧ Fits dst) ∧
      ∀ n, (t.at? (n :: a)).isSome → t.Copyable site (n :: a) (src.join ⟨n⟩) (dst.join ⟨n⟩) := by
  have hall : t.CopyFits a src dst ↔ _ := copyFits_iff h
  have hlinks : t.LinksLead site a src ↔ _ := linksLead_iff_of_dir h
  constructor
  · rintro ⟨hfits, hlead⟩
    obtain ⟨hroot, hinner⟩ := hall.1 hfits
    exact ⟨hroot, fun n hn => ⟨hinner n hn, hlinks.1 hlead n hn⟩⟩
  · rintro ⟨hroot, hinner⟩
    exact ⟨hall.2 ⟨hroot, fun n hn => (hinner n hn).fits⟩, hlinks.2 fun n hn => (hinner n hn).links⟩

/-- What a copy has in it: in place of a link, the file that it leads to. -/
def image (t : Tree) (site : Site) (a : Place) (src : Path) (r : Place) : Option Entry :=
  match t.at? (r ++ a) with
  | some (.link _) => (t.follow site (src.inside r)).toOption.bind t.at?
  | e => e

lemma image_concat (r : Place) (n : Bytes) :
    t.image site a src (r ++ [n]) = t.image site (n :: a) (src.join ⟨n⟩) r := by
  rw [image, image, List.append_assoc, Path.inside_concat]
  rfl

lemma image_of_ne_link {r : Place} (h : ∀ target, t.at? (r ++ a) ≠ some (.link target)) :
    t.image site a src r = t.at? (r ++ a) := by
  rw [image]
  split
  · rename_i target hlink
    exact absurd hlink (h target)
  · rfl

lemma image_of_follow {r : Place} {target : Bytes} (h : t.at? (r ++ a) = some (.link target))
    (hk : t.follow site (src.inside r) = .ok k) : t.image site a src r = t.at? k := by
  rw [image, h, hk]
  rfl

lemma image_grow (h : t.LinksLead site a src) (htu : t ≤ u)
    (hu : ∀ r, u.at? (r ++ a) = t.at? (r ++ a)) (r : Place) :
    u.image site a src r = t.image site a src r := by
  by_cases hlink : ∃ target, t.at? (r ++ a) = some (.link target)
  · obtain ⟨target, hlink⟩ := hlink
    obtain ⟨k, c, x, hk, hat⟩ := isFileAt_iff.1 (h r target hlink)
    rw [image_of_follow hlink hk, image_of_follow ((hu r).trans hlink) (follow_mono htu hk), hat,
      htu _ _ hat]
  · rw [not_exists] at hlink
    rw [image_of_ne_link hlink, image_of_ne_link fun target => hu r ▸ hlink target, hu]

/-- What is at and in one place is a copy of what is at and in another, and all that this takes is
there. -/
structure Replica (site : Site) (src dst : Path) (a b : Place) (t : Tree) : Prop extends
    t.Copyable site a src dst where
  copy : ∀ r, t.at? (r ++ b) = t.image site a src r

lemma Replica.grow (h : Replica site src dst a b t) (htu : t ≤ u)
    (ha : ∀ r, u.at? (r ++ a) = t.at? (r ++ a)) (hb : ∀ r, u.at? (r ++ b) = t.at? (r ++ b)) :
    Replica site src dst a b u where
  toCopyable := h.toCopyable.grow htu ha
  copy r := by rw [hb, h.copy, image_grow h.links htu ha]

lemma replica_of_entries (ha : t.at? a = some .dir) (hb : t.at? b = some .dir)
    (hfits : Fits src ∧ Fits dst)
    (h : ∀ n, (t.at? (n :: a)).isSome →
      Replica site (src.join ⟨n⟩) (dst.join ⟨n⟩) (n :: a) (n :: b) t)
    (hnone : ∀ n, t.at? (n :: a) = none → t.at? (n :: b) = none) :
    Replica site src dst a b t where
  toCopyable := (copyable_iff_of_dir ha).2 ⟨hfits, fun n hn => (h n hn).toCopyable⟩
  copy r := by
    rcases r.eq_nil_or_concat with rfl | ⟨r, n, rfl⟩
    · rw [image_of_ne_link (by simp [ha]), List.nil_append, List.nil_append, ha, hb]
    · rw [List.concat_eq_append, image_concat, List.append_assoc, List.singleton_append]
      cases hn : t.at? (n :: a) with
      | some e => exact (h n (by simp [hn])).copy r
      | none =>
        have ha' := at?_eq_none_of_suffix (List.suffix_append r (n :: a)) hn
        rw [image_of_ne_link (by simp [ha']), ha',
          at?_eq_none_of_suffix (List.suffix_append r (n :: b)) (hnone n hn)]

lemma apart_of_vacant (ha : (t.at? a).isSome) (hb : t.at? b = none) (hoff : ¬a <:+ b) :
    Apart a b := by
  refine ⟨hoff, fun hin => ?_⟩
  rw [at?_eq_none_of_suffix hin hb] at ha
  cases ha

lemma Adds.at?_append (h : Adds b t u) (hfree : t.at? b = none) (ha : (t.at? a).isSome)
    (hoff : ¬a <:+ b) (r : Place) : u.at? (r ++ a) = t.at? (r ++ a) := by
  cases hr : t.at? (r ++ a) with
  | some e => exact h.le _ _ hr
  | none =>
    have hout : ¬b <:+ r ++ a := (apart_of_vacant ha hfree hoff).not_suffix
    refine (h.rest _ hout hr).resolve_right fun hin => hoff ?_
    exact (List.suffix_append r a).trans hin.1

/-- A place holds an entry, and nothing else is changed. -/
def Filled (p : Place) (e : Entry) (t u : Tree) : Prop :=
  ∀ k, u.at? k = if k = p then some e else t.at? k

lemma filled_insert (hp : t.at? p = some .dir) (hway : t.at? (n :: p) ≠ some .dir) :
    Filled (n :: p) e t (t.insert (n :: p) e) := by
  intro k
  rw [at?_insert hp]
  split
  · rfl
  · rename_i hne
    split
    · rename_i hin
      obtain ⟨r, rfl⟩ := hin
      exact (at?_append_eq_none (by rintro rfl; exact hne rfl) hway).symm
    · rfl

lemma Filled.trans {f : Entry} (h : Filled p e t v) (h' : Filled p f v u) : Filled p f t u := by
  intro k
  rw [h' k, h k]
  split <;> rfl

lemma Filled.adds (h : Filled b e t u) (hfree : t.at? b = none) : Adds b t u where
  le k f hk := by
    rw [h k, if_neg, hk]
    rintro rfl
    rw [hfree] at hk
    cases hk
  rest k hk hnone := by
    rw [h k, if_neg, hnone]
    · exact .inl rfl
    · rintro rfl
      exact hk List.suffix_rfl

lemma Filled.replica (h : Filled b (.file c x) t u) (hfree : t.at? b = none) (hoff : ¬a <:+ b)
    (ha : t.at? a = some e) (he : e ≠ .dir) (hk : t.follow site src = .ok k)
    (hat : t.at? k = some (.file c x)) (hsame : e.isFile = true → k = a)
    (hfits : Fits src ∧ Fits dst) : Replica site src dst a b u := by
  have hadds := h.adds hfree
  have hkept := hadds.at?_append hfree (a := a) (by simp [ha]) hoff
  have hroot : u.at? a = some e := (hkept []).trans ha
  have hinner (r : Place) (hr : r ≠ []) : u.at? (r ++ a) = none :=
    at?_append_eq_none hr (by simpa [hroot] using he)
  have hfollow := follow_mono hadds.le hk
  have hat' := hadds.le _ _ hat
  have hleads : u.LinksLead site a src := by
    intro r target hlink
    by_cases hr : r = []
    · subst hr
      exact isFileAt_iff.2 ⟨k, c, x, hfollow, hat'⟩
    · rw [hinner r hr] at hlink
      cases hlink
  refine ⟨⟨fun r hr => ?_, hleads⟩, fun r => ?_⟩
  · by_cases hne : r = []
    · subst hne
      exact hfits
    · rw [hinner r hne] at hr
      cases hr
  · by_cases hr : r = []
    · subst hr
      rw [List.nil_append, h b, if_pos rfl]
      cases e with
      | dir => exact absurd rfl he
      | link target => rw [image_of_follow (r := []) hroot hfollow, hat']
      | file =>
        obtain rfl := hsame rfl
        rw [image_of_ne_link (by simp [hroot]), List.nil_append, hat']
    · rw [image_of_ne_link (by simp [hinner r hr]), hinner r hr]
      exact at?_append_eq_none hr (by simp [h b])

lemma Approaches.writable_eq (h : t.Approaches site path p [n]) (hslash : path.endsInSlash = false)
    (hc : check path = .ok ()) (hway : ∀ e, t.at? (n :: p) = some e → e.isFile = true) :
    t.writable site path =
      if nameLimit < n.length then .error .nameTooLong else .ok (n :: p) := by
  obtain ⟨m, hm⟩ := h.walk
  have hwalk : t.walk (startOf site.cwd path) path.steps linkLimit = t.walk p [n] m := by
    rw [Path.steps_eq, if_neg (by simp [hslash]), hm, List.append_nil]
  have hn := h.isName n (by simp)
  rw [writable, if_neg (by simp [hslash]), find, hc]
  simp only [bind, Except.bind, hwalk, walk_cons, h.dir, if_neg hn.1, if_neg hn.2]
  by_cases hlen : nameLimit < n.length
  · rw [child?_eq_error_iff.2 ⟨hlen, rfl⟩, if_pos hlen]
  · rw [child?_eq_ok_iff.2 ⟨Nat.not_lt.1 hlen, rfl⟩, if_neg hlen]
    cases hold : t.at? (n :: p) with
    | none => rfl
    | some e =>
      cases e with
      | file c x => simp [hold, pure, Except.pure]
      | dir | link => cases hway _ hold

/-- A directory with a file further in, and an empty directory beside it. -/
def nested : Tree :=
  let places := (["file", "sub", "dir"].map Utf8.encode).tails.reverse.tail
  let dirs := places.foldl (fun t p => t.insert p .dir) (empty.insert [Utf8.encode "other"] .dir)
  dirs.insert (["file", "sub", "dir"].map Utf8.encode) (.file (Utf8.encode "content") true)

def nestedWithLink (target : String) : Tree :=
  nested.insert (["link", "dir"].map Utf8.encode) (.link (Utf8.encode target))

/-- A path in the empty directory that is written with so many slashes that it can be given to the
system, but not the path of anything in it. -/
def faraway : Path := ⟨Utf8.encode "other" ++ List.replicate 4087 slash ++ Utf8.encode "dir"⟩

end Tree

namespace Files
open FirmwareTasks.Tree (Adds Apart Approaches CopyFits Filled Fits Replica below)
variable {t u : Tree} {site : Site} {src dst : Path} {b p q D : Place} {n w : Bytes}
  {ws : List Bytes} {e : Entry} {depth : ℕ}

lemma truncate_filled {k : Place} {c : Bytes} {x : Bool} (hp : t.at? p = some .dir)
    (hwrite : t.writable site dst = .ok (n :: p))
    (hway : ∀ e, t.at? (n :: p) = some e → e.isFile = true) (hk : t.at? k = some (.file c x))
    (hoff : k ≠ n :: p) :
    ∃ v, truncate site dst x t = .ok (n :: p) v ∧ v.at? k = some (.file c x) ∧
      Filled (n :: p) (.file c x) t (v.insert (n :: p) (.file c x)) := by
  have hdir : t.at? (n :: p) ≠ some .dir := fun hdir => by cases hway _ hdir
  refine ⟨t.insert (n :: p) (.file [] (t.bitAt (n :: p) x)), ?_, ?_, ?_⟩
  · rw [truncate, bind_of_ok (FileCall.ask_of_ok hwrite)]
    rfl
  · rw [Tree.filled_insert hp hdir k, if_neg hoff, hk]
  · have hopened := Tree.filled_insert (e := .file [] (t.bitAt (n :: p) x)) hp hdir
    refine hopened.trans (Tree.filled_insert ?_ ?_)
    · rw [hopened p, if_neg (List.cons_ne_self n p).symm, hp]
    · rw [hopened, if_pos rfl]
      simp

/-- A file is copied to where nothing is, or another file, exactly if there is a regular file to
copy and the path of the copy can be given to the system; otherwise nothing is changed. -/
theorem copyFile_ends (hdst : t.Approaches site dst p [n]) (hslash : dst.endsInSlash = false)
    (hway : ∀ e, t.at? (n :: p) = some e → e.isFile = true)
    (hoff : t.follow site src ≠ .ok (n :: p)) :
    (copyFile site src dst t).Ends
      (fun u => Fits dst ∧ ∃ k c x, t.follow site src = .ok k ∧ t.at? k = some (.file c x) ∧
        Filled (n :: p) (.file c x) t u)
      fun u => u = t ∧ ¬(Fits dst ∧ t.isFileAt site src = true) := by
  cases hk : t.follow site src with
  | error e =>
    rw [copyFile, bind_of_error (FileCall.ask_of_error hk)]
    refine ⟨rfl, fun hcond => ?_⟩
    obtain ⟨k, -, -, hk', -⟩ := Tree.isFileAt_iff.1 hcond.2
    rw [hk] at hk'
    cases hk'
  | ok k =>
    rw [copyFile, bind_of_ok (FileCall.ask_of_ok hk), bind_of_ok (m := get) (t := t) rfl]
    by_cases hfile : ∃ c x, t.at? k = some (.file c x)
    · obtain ⟨c, x, hat⟩ := hfile
      have hne : k ≠ n :: p := by
        rintro rfl
        exact hoff hk
      rw [hat]
      dsimp only
      cases hc : Tree.check dst with
      | error e =>
        have hwrite : ∃ e, t.writable site dst = .error e := by
          rw [Tree.writable, if_neg (by simp [hslash]), Tree.find, hc]
          exact ⟨e, rfl⟩
        obtain ⟨e, hwrite⟩ := hwrite
        rw [truncate, bind_of_error (bind_of_error (FileCall.ask_of_error hwrite) _)]
        refine ⟨rfl, fun hcond => ?_⟩
        rw [hcond.1.check] at hc
        cases hc
      | ok _ =>
        have hwrite := hdst.writable_eq hslash hc hway
        split at hwrite
        · rename_i hlong
          rw [truncate, bind_of_error (bind_of_error (FileCall.ask_of_error hwrite) _)]
          exact ⟨rfl, fun hcond => Nat.not_lt.2 (hdst.length_le hcond.1 n (by simp)) hlong⟩
        · rename_i hshort
          obtain ⟨v, hopen, hkept, hfilled⟩ := truncate_filled hdst.dir hwrite hway hat hne
          rw [bind_of_ok hopen]
          refine ⟨hdst.fits_of_length_le hc (by simpa using hshort), k, c, x, rfl, hat, ?_⟩
          simpa only [hkept] using hfilled
    · have hnot : ¬t.isFileAt site src = true := by
        intro hfile'
        obtain ⟨k', c, x, hk', hat⟩ := Tree.isFileAt_iff.1 hfile'
        rw [hk] at hk'
        cases hk'
        exact hfile ⟨c, x, hat⟩
      cases hat : t.at? k with
      | none => exact ⟨rfl, fun hcond => hnot hcond.2⟩
      | some e =>
        cases e with
        | file c x => exact absurd ⟨c, x, hat⟩ hfile
        | dir | link => exact ⟨rfl, fun hcond => hnot hcond.2⟩

def copyEntry (site : Site) (depth : ℕ) (src dst : Path) (entry : Bytes × Entry) :
    FileCall Unit :=
  if entry.2.isDir then copyDir site depth (src.join ⟨entry.1⟩) (dst.join ⟨entry.1⟩)
  else copyFile site (src.join ⟨entry.1⟩) (dst.join ⟨entry.1⟩)

/-- Copies entries of a directory one after the other. -/
def copyEntries (site : Site) (depth : ℕ) (src dst : Path) : List (Bytes × Entry) → FileCall Unit
  | [] => pure ()
  | entry :: l => do
    copyEntry site depth src dst entry
    copyEntries site depth src dst l

lemma copyDir_succ (site : Site) (depth : ℕ) (src dst : Path) :
    copyDir site (depth + 1) src dst = (do
      makeDirs site dst
      let l ← listDir site src
      copyEntries site depth src dst l) := by
  have hloop (l : List (Bytes × Entry)) :
      (do
        for entry in l do
          if entry.2.isDir then copyDir site depth (src.join ⟨entry.1⟩) (dst.join ⟨entry.1⟩)
          else copyFile site (src.join ⟨entry.1⟩) (dst.join ⟨entry.1⟩) : FileCall Unit) =
        copyEntries site depth src dst l := by
    induction l with
    | nil => rfl
    | cons entry l ih =>
      rw [copyEntries, ← ih]
      simp only [List.forIn_cons, copyEntry]
      split <;> simp
  rw [copyDir]
  simp only [← hloop]

/-- What is in a directory, by name, in the order of the site. -/
def listed (site : Site) (t : Tree) (a : Place) : List (Bytes × Entry) :=
  (site.order.arrange a (t.names a)).filterMap fun n => (t.at? (n :: a)).map (n, ·)

lemma mem_arrange {a : Place} {n : Bytes} :
    n ∈ site.order.arrange a (t.names a) ↔ (t.at? (n :: a)).isSome := by
  rw [(site.order.perm a _).mem_iff, Tree.mem_names]

lemma mem_listed {a : Place} {entry : Bytes × Entry} :
    entry ∈ listed site t a ↔ t.at? (entry.1 :: a) = some entry.2 := by
  obtain ⟨m, e⟩ := entry
  simp only [listed, List.mem_filterMap, Option.map_eq_some_iff, Prod.mk.injEq, mem_arrange]
  constructor
  · rintro ⟨n, -, x, hx, rfl, rfl⟩
    exact hx
  · intro he
    exact ⟨m, by simp [he], e, he, rfl, rfl⟩

@[simp] lemma map_fst_listed (site : Site) (t : Tree) (a : Place) :
    (listed site t a).map Prod.fst = site.order.arrange a (t.names a) := by
  rw [listed, List.map_filterMap]
  conv_rhs => rw [← List.filterMap_some (l := site.order.arrange a (t.names a))]
  apply List.filterMap_congr
  intro n hn
  obtain ⟨e, he⟩ := Option.isSome_iff_exists.1 (mem_arrange.1 hn)
  simp [he]

lemma list_eq_ok {l : List (Bytes × Entry)} (h : Tree.list site src t = .ok l) :
    ∃ p, t.follow site src = .ok p ∧ t.at? p = some .dir ∧ l = listed site t p := by
  obtain ⟨p, hp, h⟩ := Except.bind_eq_ok h
  split at h
  · rename_i hdir
    exact ⟨p, hp, hdir, (Except.ok.inj h).symm⟩
  · cases h

lemma listDir_ends (h : t.Approaches site src q []) :
    (Fits src ∧ listDir site src t = .ok (listed site t q) t) ∨
      (¬Fits src ∧ ∃ e, listDir site src t = .error e t) := by
  cases hc : Tree.check src with
  | ok _ =>
    have hlist : Tree.list site src t = .ok (listed site t q) := by
      simp only [Tree.list, h.follow_of_dir hc, bind, Except.bind, h.dir]
      rfl
    exact .inl ⟨h.fits_of_length_le hc (by simp), FileCall.ask_of_ok hlist⟩
  | error e =>
    have hlist : Tree.list site src t = .error e := by
      simp only [Tree.list, Tree.follow, Tree.find, hc, bind, Except.bind]
    refine .inr ⟨fun hfits => ?_, e, FileCall.ask_of_error hlist⟩
    rw [hfits.check] at hc
    cases hc

/-- How the copying of directories ends if it may go in so far, whatever is copied. -/
def CopyEnds (site : Site) (depth : ℕ) : Prop :=
  ∀ {t : Tree} {src dst : Path} {q D : Place} {w : Bytes} {ws : List Bytes},
    t.Approaches site src q [] → t.Approaches site dst D (w :: ws) → t.at? (w :: D) = none →
    ¬q <:+ below D (w :: ws) → t.Tidy q → Tree.pathLimit ≤ depth + dst.bytes.length →
    (copyDir site depth src dst t).Ends
      (fun u => Adds (below D (w :: ws)) t u ∧ Replica site src dst q (below D (w :: ws)) u)
      fun u => Adds (below D (w :: ws)) t u ∧ ¬t.Copyable site q src dst

lemma copyDir_of_not_fits (hdst : t.Approaches site dst D (w :: ws))
    (hfree : t.at? (w :: D) = none) (hfits : ¬Fits dst) (depth : ℕ) (src : Path) :
    ∃ e u, copyDir site depth src dst t = .error e u ∧ Adds (below D (w :: ws)) t u := by
  cases depth with
  | zero => exact ⟨_, t, rfl, .refl _ t⟩
  | succ depth =>
    have hmake := makeDirs_ends hdst hfree
    rw [copyDir_succ]
    cases hrun : makeDirs site dst t with
    | ok _ u =>
      rw [hrun] at hmake
      exact absurd hmake.1 hfits
    | error e u =>
      rw [hrun] at hmake
      obtain ⟨-, p, hp, hpaved⟩ := hmake
      exact ⟨e, u, bind_of_error hrun _, hpaved.adds hp (Tree.passable_below ws hdst.dir hfree)⟩

/-- What becomes of entries of one directory that are copied into another. -/
structure Replicated (site : Site) (src dst : Path) (q b : Place) (ns : List Bytes) (t u : Tree) :
    Prop where
  le : t ≤ u
  rest : ∀ k, (∀ n ∈ ns, ¬(n :: b) <:+ k) → u.at? k = t.at? k
  copies : ∀ n ∈ ns, Replica site (src.join ⟨n⟩) (dst.join ⟨n⟩) (n :: q) (n :: b) u

namespace Replicated
variable {ns : List Bytes}

lemma at?_append (h : Replicated site src dst q b ns t u) (hapart : Apart q b) (r : Place) :
    u.at? (r ++ q) = t.at? (r ++ q) :=
  h.rest _ fun n _ hin => hapart.not_suffix ((List.suffix_cons n b).trans hin)

lemma adds (h : Replicated site src dst q b ns t u) : Adds b t u := by
  refine ⟨h.le, fun k hk hnone => .inl ?_⟩
  rw [h.rest k fun n _ hin => hk ((List.suffix_cons n b).trans hin), hnone]

lemma replica (h : Replicated site src dst q b (site.order.arrange q (t.names q)) t u)
    (hapart : Apart q b) (hq : t.at? q = some .dir) (hb : t.EmptyDir b)
    (hfits : Fits src ∧ Fits dst) :
    Replica site src dst q b u := by
  have hsame (n : Bytes) : u.at? (n :: q) = t.at? (n :: q) := h.at?_append hapart [n]
  refine Tree.replica_of_entries (h.le _ _ hq) (h.le _ _ hb.1) hfits (fun n hn => ?_)
    fun n hn => ?_
  · exact h.copies n (mem_arrange.2 (hsame n ▸ hn))
  · rw [h.rest, hb.2 n]
    intro m hm hin
    obtain rfl := Tree.eq_of_cons_suffix (r := []) hin
    have hsome := mem_arrange.1 hm
    rw [← hsame m, hn] at hsome
    cases hsome

end Replicated

section entries
variable (ih : CopyEnds site depth) (hapart : Apart q b)
  (hdepth : Tree.pathLimit ≤ depth + 1 + dst.bytes.length)
include ih hapart hdepth

lemma copyEntry_ends (hsrc : t.Approaches site src q []) (hdst : t.Approaches site dst b [])
    (htidy : t.Tidy q) (hentry : t.at? (n :: q) = some e) (hfree : t.at? (n :: b) = none) :
    (copyEntry site depth src dst (n, e) t).Ends
      (fun u => Adds (n :: b) t u ∧
        Replica site (src.join ⟨n⟩) (dst.join ⟨n⟩) (n :: q) (n :: b) u)
      fun u => Adds (n :: b) t u ∧
        ¬t.Copyable site (n :: q) (src.join ⟨n⟩) (dst.join ⟨n⟩) := by
  have hn : IsName n ∧ slash ∉ n := htidy [] n (by simp [hentry])
  have hsrc' := hsrc.join hn
  have hdst' := hdst.join hn
  have hoff : ¬(n :: q) <:+ n :: b := (hapart.cons n n).1
  have hroot : t.Copyable site (n :: q) (src.join ⟨n⟩) (dst.join ⟨n⟩) →
      Fits (src.join ⟨n⟩) ∧ Fits (dst.join ⟨n⟩) := fun hcond => hcond.fits [] (by simp [hentry])
  by_cases hdir : e = .dir
  · subst hdir
    have hcopy : copyEntry site depth src dst (n, .dir) =
        copyDir site depth (src.join ⟨n⟩) (dst.join ⟨n⟩) := rfl
    rw [hcopy]
    by_cases hlen : n.length ≤ Tree.nameLimit
    · have hlt := Path.length_lt_join hn dst
      refine ih (hsrc'.advance [n] (by simpa using hlen) hentry) hdst' hfree hoff
        (htidy.cons n) (by omega)
    · have hfits : ¬Fits (dst.join ⟨n⟩) := fun hfits =>
        hlen (hdst'.length_le hfits n (by simp))
      obtain ⟨x, u, hrun, hadds⟩ := copyDir_of_not_fits hdst' hfree hfits depth (src.join ⟨n⟩)
      rw [hrun]
      exact ⟨hadds, fun hcond => hfits (hroot hcond).2⟩
  · have hcopy : copyEntry site depth src dst (n, e) =
        copyFile site (src.join ⟨n⟩) (dst.join ⟨n⟩) := by
      cases e with
      | dir => exact absurd rfl hdir
      | file | link => rfl
    have hslash : (dst.join ⟨n⟩).endsInSlash = false := (Path.endsIn_join_mk hn.1 hn.2 dst).noSlash
    have hplace : t.follow site (src.join ⟨n⟩) ≠ .ok (n :: b) := fun hk => by
      have hsome := Tree.isSome_of_follow hk
      rw [hfree] at hsome
      cases hsome
    have hsame (hfits : Fits (src.join ⟨n⟩)) (hfile : e.isFile = true) :
        t.follow site (src.join ⟨n⟩) = .ok (n :: q) := by
      cases e with
      | file c x =>
        exact hsrc'.follow_of_file (Path.endsIn_join_mk hn.1 hn.2 src).noSlash hfits hentry
      | dir | link => cases hfile
    rw [hcopy]
    refine (copyFile_ends hdst' hslash (by simp [hfree]) hplace).imp ?_ ?_
    · rintro u ⟨hfits, k, c, x, hk, hat, hfilled⟩
      have hfits' := Tree.fits_of_follow hk
      refine ⟨hfilled.adds hfree, hfilled.replica hfree hoff hentry hdir hk hat (fun hfile => ?_)
        ⟨hfits', hfits⟩⟩
      have hk' := hsame hfits' hfile
      rw [hk] at hk'
      exact Except.ok.inj hk'
    · rintro u ⟨rfl, hcond⟩
      refine ⟨.refl _ u, fun hcopyable => hcond ⟨(hroot hcopyable).2, ?_⟩⟩
      cases e with
      | dir => exact absurd rfl hdir
      | link target => exact hcopyable.links [] target hentry
      | file c x =>
        have hfollow := hsame (hroot hcopyable).1 rfl
        exact Tree.isFileAt_iff.2 ⟨n :: q, c, x, hfollow, hentry⟩

/-- Entries of a directory are copied into another, each where nothing is. -/
theorem copyEntries_ends {l : List (Bytes × Entry)} (hsrc : t.Approaches site src q [])
    (hdst : t.Approaches site dst b []) (htidy : t.Tidy q)
    (hentries : ∀ entry ∈ l, t.at? (entry.1 :: q) = some entry.2)
    (hnodup : (l.map Prod.fst).Nodup) (hfree : ∀ entry ∈ l, t.at? (entry.1 :: b) = none) :
    (copyEntries site depth src dst l t).Ends
      (Replicated site src dst q b (l.map Prod.fst) t)
      fun u => Adds b t u ∧
        ¬∀ n ∈ l.map Prod.fst, t.Copyable site (n :: q) (src.join ⟨n⟩) (dst.join ⟨n⟩) := by
  induction l generalizing t with
  | nil => exact ⟨le_rfl, fun _ _ => rfl, by simp⟩
  | cons entry l ihl =>
    obtain ⟨n, e⟩ := entry
    obtain ⟨hentry, hentries⟩ := List.forall_mem_cons.1 hentries
    obtain ⟨hn, hfree⟩ := List.forall_mem_cons.1 hfree
    obtain ⟨hfirst, hnodup⟩ := List.nodup_cons.1 hnodup
    have hne (m : Bytes) (hm : m ∈ l.map Prod.fst) : m ≠ n := fun heq => hfirst (heq ▸ hm)
    refine ends_bind (copyEntry_ends ih hapart hdepth hsrc hdst htidy hentry hn)
      (fun _ v ⟨hadds, hcopy⟩ => ?_) fun v ⟨hadds, hcond⟩ =>
        ⟨hadds.of_cons hdst.dir, fun hall => hcond (hall n (.head _))⟩
    have hrest {k : Place} (hk : ¬(n :: b) <:+ k) : v.at? k = t.at? k :=
      hadds.at?_of_dir hdst.dir hk
    -- what is copied is off the target, so it is still as it was
    have hkept (r : Place) : v.at? (r ++ q) = t.at? (r ++ q) :=
      hrest fun hin => hapart.not_suffix ((List.suffix_cons n b).trans hin)
    have hkept' (m : Bytes) (r : Place) : v.at? (r ++ m :: q) = t.at? (r ++ m :: q) := by
      simpa using hkept (r ++ [m])
    have hother {m : Bytes} (hm : m ≠ n) : v.at? (m :: b) = t.at? (m :: b) :=
      hrest fun hin => hm (Tree.eq_of_cons_suffix (r := []) hin).symm
    have htail := ihl (hsrc.grow hadds.le) (hdst.grow hadds.le) (htidy.congr hkept)
      (fun entry hentry => (hkept' entry.1 []).trans (hentries entry hentry)) hnodup
      (fun entry hentry => (hother (hne _ (List.mem_map_of_mem hentry))).trans
        (hfree entry hentry))
    refine htail.imp (fun w hw => ⟨hadds.le.trans hw.le, fun k hk => ?_, fun m hm => ?_⟩)
      fun w ⟨hw, hcond⟩ => ⟨(hadds.of_cons hdst.dir).trans hw, fun hall => hcond fun m hm => ?_⟩
    · obtain ⟨hk, hks⟩ := List.forall_mem_cons.1 hk
      rw [hw.rest k hks, hrest hk]
    · rcases List.mem_cons.1 hm with rfl | hm
      · refine hcopy.grow hw.le (fun r => by simpa using hw.at?_append hapart (r ++ [m]))
          fun r => ?_
        exact hw.rest _ fun m hm hin => hne m hm (Tree.eq_of_cons_suffix hin)
      · exact hw.copies m hm
    · exact (hall m (.tail _ hm)).grow hadds.le (hkept' m)

end entries

/-- A directory is copied into a free name that is not inside it if every path of the copy can be
given to the system and every link in it leads to a regular file; and only then, unless a link comes
to lead to a file by what is copied before. -/
theorem copyDir_ends (site : Site) (depth : ℕ) : CopyEnds site depth := by
  induction depth with
  | zero =>
    intro t src dst q D w ws hsrc hdst hfree hoff htidy hdepth
    refine ⟨.refl _ t, fun hcond => ?_⟩
    have hfits : Fits dst := (hcond.fits [] (by simp [hsrc.dir])).2
    exact absurd (Tree.check_eq_ok_iff.1 hfits.check).2.2 (by omega)
  | succ depth ih =>
    intro t src dst q D w ws hsrc hdst hfree hoff htidy hdepth
    have hway := Tree.passable_below ws hdst.dir hfree
    have hnone := Tree.at?_below_eq_none ws hfree
    have hapart : Apart q (below D (w :: ws)) :=
      Tree.apart_of_vacant (by simp [hsrc.dir]) hnone hoff
    have hcond : t.Copyable site q src dst ↔ _ := Tree.copyable_iff_of_dir hsrc.dir
    rw [copyDir_succ]
    refine ends_bind (makeDirs_ends hdst hfree) (fun _ v ⟨hfits, hpaved⟩ => ?_)
      fun v ⟨hfits, p, hp, hpaved⟩ => ⟨hpaved.adds hp hway, fun h => hfits (hcond.1 h).1.2⟩
    have hadds := hpaved.adds List.suffix_rfl hway
    have hempty := hpaved.emptyDir hnone
    have hsrc' := hsrc.grow hadds.le
    have hdst' : v.Approaches site dst (below D (w :: ws)) [] := by
      refine Approaches.paved ?_ hfree (hdst.length_le hfits) hpaved
      rwa [List.append_nil]
    have hkept (r : Place) : v.at? (r ++ q) = t.at? (r ++ q) :=
      hadds.at?_append hnone (by simp [hsrc.dir]) hoff r
    rcases listDir_ends hsrc' with ⟨hfits', hlist⟩ | ⟨hfits', e, hlist⟩
    · rw [bind_of_ok hlist]
      have hloop := copyEntries_ends ih hapart (by omega) hsrc' hdst' (htidy.congr hkept)
        (fun entry hentry => mem_listed.1 hentry)
        (by rw [map_fst_listed, (site.order.perm q _).nodup_iff]; exact v.nodup_names q) (fun entry _ => hempty.2 entry.1)
      rw [map_fst_listed] at hloop
      refine hloop.imp (fun u hu => ⟨hadds.trans hu.adds, ?_⟩)
        fun u ⟨hu, hcopyable⟩ => ⟨hadds.trans hu, fun h => ?_⟩
      · exact hu.replica hapart hsrc'.dir hempty ⟨hfits', hfits⟩
      · have hv := h.grow (u := v) hadds.le hkept
        refine hcopyable fun n hn => ?_
        exact ((Tree.copyable_iff_of_dir hsrc'.dir).1 hv).2 n (mem_arrange.1 hn)
    · rw [bind_of_error hlist]
      exact ⟨hadds, fun h => hfits' (hcond.1 h).1.1⟩

/-- Copies a directory to a path where nothing is, no further in than a depth. -/
def copyWithin (site : Site) (depth : ℕ) (src dst : Path) : FileCall Unit := do
  if !(← get).isDirAt site src then throw (.other "source directory does not exist")
  if (← get).existsAt site dst then throw (.other "destination already exists")
  copyDir site depth src dst

lemma copyWithin_of_isDirAt (h : t.isDirAt site src = true) (depth : ℕ) :
    copyWithin site depth src dst t =
      if t.existsAt site dst then .error (.other "destination already exists") t
      else copyDir site depth src dst t := by
  rw [copyWithin, bind_of_ok (m := get) (t := t) rfl, h]
  simp only [Bool.not_true, Bool.false_eq_true, if_false]
  rw [bind_of_ok (m := get) (t := t) rfl]
  cases t.existsAt site dst <;> rfl

/-- Copies a directory to a path where nothing is. -/
def copyWhole (site : Site) (src dst : Path) : FileCall Unit := do
  if !(← get).isDirAt site src then throw (.other "source directory does not exist")
  if (← get).existsAt site dst then throw (.other "destination already exists")
  copyDir site Tree.pathLimit src dst

lemma copyWhole_eq_copyWithin (site : Site) (src dst : Path) :
    copyWhole site src dst = copyWithin site Tree.pathLimit src dst := rfl

lemma copyWhole_of_not_isDirAt (h : t.isDirAt site src = false) :
    ∃ e, copyWhole site src dst t = .error e t := by
  rw [copyWhole, bind_of_ok (m := get) (t := t) rfl, h]
  exact ⟨_, rfl⟩

lemma copyWhole_of_isDirAt (h : t.isDirAt site src = true) :
    copyWhole site src dst t =
      if t.existsAt site dst then .error (.other "destination already exists") t
      else copyDir site Tree.pathLimit src dst t :=
  copyWithin_of_isDirAt h Tree.pathLimit

end Files
end FirmwareTasks
