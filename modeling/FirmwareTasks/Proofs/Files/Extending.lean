import FirmwareTasks.Proofs.Files.Copying
/-!
Trees that keep what they hold, but for what is in their files. Paths lead where they have led, and
whatever a call makes is where its path leads afterwards.
-/
namespace FirmwareTasks
open EStateM
open FirmwareTasks.Path (dot dotDot IsName slash)

namespace Tree
variable {t u v : Tree} {K : Place → Prop} {site : Site} {path : Path} {p q k d D a : Place}
  {n s : Bytes} {xs ws : List Bytes} {l m : ℕ} {e : Entry} {c : Bytes} {x : Bool}

/-- What is at a place stays there, but for what is in a file. What comes in has a proper name. -/
structure Extends (t u : Tree) : Prop where
  kept : ∀ k e, t.at? k = some e →
    u.at? k = some e ∨ e.isFile = true ∧ ∃ c x, u.at? k = some (.file c x)
  isName : ∀ n p, t.at? (n :: p) = none → (u.at? (n :: p)).isSome → IsName n ∧ slash ∉ n

instance : IsPreorder Tree Extends where
  refl _ := ⟨fun _ _ hk => .inl hk, fun _ _ hnone hsome => by simp [hnone] at hsome⟩
  trans t u v htu huv := by
    refine ⟨fun k e hk => ?_, fun n p hnone hsome => ?_⟩
    · rcases htu.kept k e hk with hsame | ⟨hfile, c, x, hfile'⟩
      · exact huv.kept k e hsame
      · rcases huv.kept k _ hfile' with hsame | ⟨-, hfile''⟩
        · exact .inr ⟨hfile, c, x, hsame⟩
        · exact .inr ⟨hfile, hfile''⟩
    · cases hu : u.at? (n :: p) with
      | none => exact huv.isName n p hu hsome
      | some e => exact htu.isName n p hnone (by simp [hu])

namespace Extends

lemma dir (h : Extends t u) (hk : t.at? k = some .dir) : u.at? k = some .dir :=
  (h.kept k _ hk).resolve_right (by simp [Entry.isFile])

lemma dir_of_dir (h : Extends t u) (hk : u.at? k = some .dir) (hne : t.at? k ≠ none) :
    t.at? k = some .dir := by
  obtain ⟨e, he⟩ := Option.ne_none_iff_exists'.1 hne
  rcases h.kept k e he with hsame | ⟨-, c, x, hfile⟩
  · rw [he, ← hsame, hk]
  · rw [hfile] at hk
    cases hk

lemma link {target : Bytes} (h : Extends t u) (hk : t.at? k = some (.link target)) :
    u.at? k = some (.link target) :=
  (h.kept k _ hk).resolve_right (by simp [Entry.isFile])

lemma isSome (h : Extends t u) (hk : (t.at? k).isSome) : (u.at? k).isSome := by
  obtain ⟨e, he⟩ := Option.isSome_iff_exists.1 hk
  rcases h.kept k e he with hsame | ⟨-, c, x, hfile⟩
  · simp [hsame]
  · simp [hfile]

lemma tidy (h : Extends t u) (ht : t.Tidy a) : u.Tidy a := by
  intro r n hsome
  cases hat : t.at? (n :: (r ++ a)) with
  | none => exact h.isName n _ hat hsome
  | some e => exact ht r n (by simp [hat])

theorem leads (h : Extends t u) (hm : Leads t K p xs l q m) : Leads u K p xs l q m := by
  induction hm with
  | done hp => exact .done hp
  | here hp hd _ ih => exact .here hp (h.dir hd) ih
  | outside hp hd _ ih => exact .outside hp (h.dir hd) ih
  | entry hp hd hs hc he _ ih =>
    obtain ⟨hlen, hat⟩ := child?_eq_ok_iff.1 hc
    rcases h.kept _ _ hat with hsame | ⟨-, c, x, hfile⟩
    · exact .entry hp (h.dir hd) hs (child?_eq_ok_iff.2 ⟨hlen, hsame⟩) he ih
    · exact .entry hp (h.dir hd) hs (child?_eq_ok_iff.2 ⟨hlen, hfile⟩) (by simp) ih
  | link hp hd hs hl hc _ ih =>
    obtain ⟨hlen, hat⟩ := child?_eq_ok_iff.1 hc
    exact .link hp (h.dir hd) hs hl (child?_eq_ok_iff.2 ⟨hlen, h.link hat⟩) ih

lemma follow (h : Extends t u) (hq : t.follow site path = .ok q) : u.follow site path = .ok q := by
  obtain ⟨hc, hwalk⟩ := follow_eq_ok_iff.1 hq
  obtain ⟨m, hm⟩ := leads_of_walk hwalk
  exact follow_eq_ok_iff.2 ⟨hc, (h.leads hm).walk_eq⟩

lemma isDirAt (h : Extends t u) (hdir : t.isDirAt site path = true) :
    u.isDirAt site path = true := by
  obtain ⟨hc, q, ⟨m, hm⟩, hq⟩ := isDirAt_iff.1 hdir
  exact isDirAt_iff.2 ⟨hc, q, ⟨m, h.leads hm⟩, h.dir hq⟩

lemma approaches (h : Extends t u) (hpath : t.Approaches site path D ws) :
    u.Approaches site path D ws := by
  obtain ⟨outer, m, hnames, hm⟩ := hpath.way
  exact ⟨⟨outer, m, hnames, h.leads hm⟩, h.dir hpath.dir, hpath.isName⟩

end Extends

lemma Filled.extends (h : Filled (n :: p) e t u) (hway : ∀ old, t.at? (n :: p) = some old →
    old.isFile = true ∧ ∃ c x, e = .file c x) (hn : t.at? (n :: p) = none → IsName n ∧ slash ∉ n) :
    Extends t u := by
  refine ⟨fun k old hk => ?_, fun m d hnone hsome => ?_⟩
  · by_cases hkn : k = n :: p
    · subst hkn
      obtain ⟨hfile, c, x, rfl⟩ := hway old hk
      exact .inr ⟨hfile, c, x, by rw [h, if_pos rfl]⟩
    · exact .inl (by rw [h, if_neg hkn, hk])
  · by_cases hmd : m :: d = n :: p
    · obtain ⟨rfl, rfl⟩ := List.cons.inj hmd
      exact hn hnone
    · rw [h, if_neg hmd, hnone] at hsome
      cases hsome

/-- Steps as paths have them: none is empty or has a slash in it. -/
def Steps (xs : List Bytes) : Prop := ∀ x ∈ xs, x ≠ [] ∧ slash ∉ x

lemma steps_names (path : Path) : Steps path.names := fun _ hx =>
  ⟨(Path.mem_names.1 hx).2, Path.slash_not_mem_of_mem_names hx⟩

lemma steps_steps (path : Path) : Steps path.steps := by
  intro x hx
  rw [Path.steps_eq] at hx
  rcases List.mem_append.1 hx with hx | hx
  · exact steps_names path x hx
  · split at hx
    · obtain rfl := List.mem_singleton.1 hx
      decide
    · cases hx

/-- A lookup ends at a free name, and at the entry that comes in there. -/
structure EndsVacant (t : Tree) (p : Place) (xs : List Bytes) (l : ℕ) (n : Bytes) (d : Place) :
    Prop where
  dir : t.at? d = some .dir
  free : t.at? (n :: d) = none
  isName : IsName n ∧ slash ∉ n
  way : ∀ u e, Extends t u → u.at? (n :: d) = some e → (∀ target, e ≠ .link target) →
    ∃ m, Leads u (fun _ => True) p xs l (n :: d) m

lemma EndsVacant.imp {p' : Place} {xs' : List Bytes} {l' : ℕ} (h : EndsVacant t p xs l n d)
    (hway : ∀ u m, Extends t u → Leads u (fun _ => True) p xs l (n :: d) m →
      Leads u (fun _ => True) p' xs' l' (n :: d) m) : EndsVacant t p' xs' l' n d where
  dir := h.dir
  free := h.free
  isName := h.isName
  way u e htu hu he := (h.way u e htu hu he).imp fun m hm => hway u m htu hm

/-- Where a lookup ends at a free name, it ends at the entry that comes in there. -/
theorem leads_of_vacant (hxs : Steps xs) (h : t.walk p xs l = .ok (.vacant n d)) :
    EndsVacant t p xs l n d := by
  induction p, xs, l using walk_induction with
  | nil p l =>
    rw [walk_nil] at h
    cases h
  | cons p s xs l ih ihl =>
    obtain ⟨hs, hxs'⟩ := List.forall_mem_cons.1 hxs
    rw [walk_cons] at h
    split at h
    · cases h
    · rename_i hp
      split at h
      · rename_i hdot
        exact hdot ▸ (ih p hxs' h).imp fun u m htu hm => .here trivial (htu.dir hp) hm
      · rename_i hdot
        split at h
        · rename_i hdots
          exact hdots ▸ (ih p.tail hxs' h).imp fun u m htu hm => .outside trivial (htu.dir hp) hm
        · rename_i hdots
          split at h
          · cases h
          · rename_i hc
            obtain ⟨hlen, hfree⟩ := child?_eq_ok_iff.1 hc
            split at h
            · rename_i hnil
              cases h
              refine ⟨hp, hfree, ⟨⟨hs.1, hdot, hdots⟩, hs.2⟩, fun u e htu hu he => ⟨l, ?_⟩⟩
              rw [hnil]
              exact .entry trivial (htu.dir hp) ⟨hdot, hdots⟩ (child?_eq_ok_iff.2 ⟨hlen, hu⟩) he
                (.done trivial)
            · cases h
          · rename_i target hc
            obtain ⟨hlen, hat⟩ := child?_eq_ok_iff.1 hc
            cases l with
            | zero => cases h
            | succ l =>
              have hall : Steps (Path.steps ⟨target⟩ ++ xs) := fun x hx =>
                (List.mem_append.1 hx).elim (steps_steps ⟨target⟩ x) (hxs' x)
              exact (ihl _ _ l (Nat.lt_succ_self l) hall h).imp fun u m htu hm =>
                .link trivial (htu.dir hp) ⟨hdot, hdots⟩ trivial
                  (child?_eq_ok_iff.2 ⟨hlen, htu.link hat⟩) hm
          · rename_i e' he' hc
            obtain ⟨hlen, hat⟩ := child?_eq_ok_iff.1 hc
            refine (ih (s :: p) hxs' h).imp fun u m htu hm => ?_
            rcases htu.kept _ _ hat with hsame | ⟨-, c, x, hfile⟩
            · exact .entry trivial (htu.dir hp) ⟨hdot, hdots⟩
                (child?_eq_ok_iff.2 ⟨hlen, hsame⟩) (fun target ht => he' target ht) hm
            · exact .entry trivial (htu.dir hp) ⟨hdot, hdots⟩
                (child?_eq_ok_iff.2 ⟨hlen, hfile⟩) (by simp) hm
    · cases h

lemma Leads.not_link (h : Leads t K p xs l q m) (hp : ∀ target, t.at? p ≠ some (.link target)) :
    ∀ target, t.at? q ≠ some (.link target) := by
  induction h with
  | done _ => exact hp
  | here _ _ _ ih => exact ih hp
  | @outside p _ _ _ _ _ hd _ ih =>
    refine ih fun target hlink => ?_
    cases p with
    | nil => cases hlink
    | cons n p =>
      rw [List.tail_cons, at?_eq_dir_of_cons hd] at hlink
      cases hlink
  | entry _ _ _ hc he _ ih =>
    refine ih fun target hlink => ?_
    rw [(child?_eq_ok_iff.1 hc).2] at hlink
    exact he target (Option.some.inj hlink)
  | link _ _ _ _ _ _ ih =>
    refine ih fun target hlink => ?_
    unfold startOf at hlink
    split at hlink
    · cases hlink
    · exact hp target hlink

lemma not_link_of_follow (h : t.follow site path = .ok q) (target : Bytes) :
    t.at? q ≠ some (.link target) := by
  obtain ⟨hc, hwalk⟩ := follow_eq_ok_iff.1 h
  obtain ⟨m, hm⟩ := leads_of_walk hwalk
  obtain ⟨s, xs, hsteps⟩ := List.exists_cons_of_ne_nil
    (Path.steps_ne_nil (check_eq_ok_iff.1 hc).2.1)
  rw [hsteps] at hm
  refine hm.not_link (fun target hlink => ?_) target
  cases hm <;> simp_all

/-- Where a file can be written there is a file, or nothing in a directory. Its path leads there
once it is written. -/
theorem writable_eq_ok (h : t.writable site path = .ok k) :
    ∃ n p, k = n :: p ∧ t.at? p = some .dir ∧ (t.at? k = none → IsName n ∧ slash ∉ n) ∧
      (∀ old, t.at? k = some old → old.isFile = true) ∧
      ∀ u c x, Extends t u → u.at? k = some (.file c x) → u.follow site path = .ok k := by
  unfold writable at h
  split at h
  · cases hslot : t.slot site path <;> rw [hslot] at h <;> cases h
  · obtain ⟨spot, hfind, h⟩ := Except.bind_eq_ok h
    obtain ⟨⟨⟩, hc, hwalk⟩ := Except.bind_eq_ok hfind
    cases spot with
    | vacant n p =>
      cases h
      obtain ⟨hd, hfree, hn, hway⟩ := leads_of_vacant (steps_steps path) hwalk
      refine ⟨n, p, rfl, hd, fun _ => hn, fun old hold => ?_, fun u c x htu hu => ?_⟩
      · rw [hfree] at hold
        cases hold
      · obtain ⟨m, hm⟩ := hway u _ htu hu (by simp)
        exact follow_eq_ok_iff.2 ⟨hc, hm.walk_eq⟩
    | entry q =>
      dsimp only at h
      split at h
      · cases h
      · rename_i hdir
        cases h
        have hq : t.follow site path = .ok k := follow_eq_ok_iff.2 ⟨hc, hwalk⟩
        obtain ⟨e, he⟩ := Option.isSome_iff_exists.1 (isSome_of_follow hq)
        obtain ⟨n, p, rfl⟩ : ∃ n p, k = n :: p := List.exists_cons_of_ne_nil (by
          rintro rfl
          exact hdir rfl)
        refine ⟨n, p, rfl, at?_eq_dir_of_cons he, fun hnone => by simp [he] at hnone,
          fun old hold => ?_, fun u _ _ htu _ => htu.follow hq⟩
        cases old with
        | dir => exact absurd hold hdir
        | file => rfl
        | link target => exact absurd hold (not_link_of_follow hq target)

end Tree
end FirmwareTasks
