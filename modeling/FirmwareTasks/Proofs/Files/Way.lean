import FirmwareTasks.Files.Lookup
import FirmwareTasks.Proofs.Files.Tree
import FirmwareTasks.Proofs.Path
/-!
The way of a lookup. A lookup that ends at an entry has gone from place to place, each of them a
directory or a link; what holds there decides where it ends, whatever else the tree holds.
-/
namespace FirmwareTasks.Tree
open FirmwareTasks.Path (dot dotDot)

lemma child?_eq_ok_iff {t : Tree} {p : Place} {s : Bytes} {o : Option Entry} :
    t.child? p s = .ok o ↔ s.length ≤ nameLimit ∧ t.at? (s :: p) = o := by
  unfold child?
  split <;> rename_i hlen
  · simp [Nat.not_le.2 hlen]
  · simp [Nat.not_lt.1 hlen]

lemma child?_eq_error_iff {t : Tree} {p : Place} {s : Bytes} {e : IoError} :
    t.child? p s = .error e ↔ nameLimit < s.length ∧ e = .nameTooLong := by
  unfold child?
  split <;> rename_i hlen
  · simp [hlen, eq_comm]
  · simp [hlen]

@[simp] lemma walk_nil (t : Tree) (p : Place) (n : ℕ) : t.walk p [] n = .ok (.entry p) := by
  cases n <;> rfl

theorem walk_cons (t : Tree) (p : Place) (s : Bytes) (xs : List Bytes) (n : ℕ) :
    t.walk p (s :: xs) n =
      match t.at? p with
      | none => .error .noEntry
      | some .dir =>
        if s = dot then t.walk p xs n
        else if s = dotDot then t.walk p.tail xs n
        else
          match t.child? p s with
          | .error e => .error e
          | .ok none => if xs = [] then .ok (.vacant s p) else .error .noEntry
          | .ok (some (.link target)) =>
            match n with
            | 0 => .error .tooManyLinks
            | n + 1 => t.walk (startOf p ⟨target⟩) (Path.steps ⟨target⟩ ++ xs) n
          | .ok (some _) => t.walk (s :: p) xs n
      | some _ => .error .notDirectory := by
  cases n <;> simp only [walk, reach] <;> repeat' split
  all_goals simp_all

/-- Steps lead from one place to another by way of places in `K` only, the first and the last among
them. Of the links that may be followed, some are left. -/
inductive Leads (t : Tree) (K : Place → Prop) : Place → List Bytes → ℕ → Place → ℕ → Prop
  | done {p : Place} {n : ℕ} (hp : K p) : Leads t K p [] n p n
  | here {p q : Place} {xs : List Bytes} {n m : ℕ} (hp : K p) (hd : t.at? p = some .dir)
      (rest : Leads t K p xs n q m) : Leads t K p (dot :: xs) n q m
  | outside {p q : Place} {xs : List Bytes} {n m : ℕ} (hp : K p) (hd : t.at? p = some .dir)
      (rest : Leads t K p.tail xs n q m) : Leads t K p (dotDot :: xs) n q m
  | entry {p q : Place} {s : Bytes} {e : Entry} {xs : List Bytes} {n m : ℕ} (hp : K p)
      (hd : t.at? p = some .dir) (hs : s ≠ dot ∧ s ≠ dotDot) (hc : t.child? p s = .ok (some e))
      (he : ∀ target, e ≠ .link target) (rest : Leads t K (s :: p) xs n q m) :
      Leads t K p (s :: xs) n q m
  | link {p q : Place} {s target : Bytes} {xs : List Bytes} {n m : ℕ} (hp : K p)
      (hd : t.at? p = some .dir) (hs : s ≠ dot ∧ s ≠ dotDot) (hl : K (s :: p))
      (hc : t.child? p s = .ok (some (.link target)))
      (rest : Leads t K (startOf p ⟨target⟩) (Path.steps ⟨target⟩ ++ xs) n q m) :
      Leads t K p (s :: xs) (n + 1) q m

variable {t u : Tree} {K L : Place → Prop} {p q r : Place} {s : Bytes} {xs ys zs : List Bytes}
  {n m l : ℕ}

namespace Leads

lemma start (h : Leads t K p xs n q m) : K p := by
  cases h <;> assumption

lemma stop (h : Leads t K p xs n q m) : K q := by
  induction h <;> assumption

/-- What leads somewhere is gone through first, whatever steps follow. -/
theorem walk (h : Leads t K p xs n q m) (ys : List Bytes) :
    t.walk p (xs ++ ys) n = t.walk q ys m := by
  induction h with
  | done _ => rfl
  | here _ hd _ ih => simpa [walk_cons, hd] using ih
  | outside _ hd _ ih =>
    have hne : dotDot ≠ dot := by decide
    simpa [walk_cons, hd, hne] using ih
  | @entry _ _ _ e _ _ _ _ hd hs hc he _ ih =>
    rw [List.cons_append, walk_cons, hd]
    simp only [hs.1, hs.2, hc, if_false]
    cases e with
    | link target => exact absurd rfl (he target)
    | dir | file => exact ih
  | link _ hd hs _ hc _ ih =>
    rw [List.cons_append, walk_cons, hd]
    simpa [hs.1, hs.2, hc] using ih

lemma walk_eq (h : Leads t K p xs n q m) : t.walk p xs n = .ok (.entry q) := by
  simpa using h.walk []

theorem congr (h : Leads t K p xs n q m) (htu : ∀ k, K k → t.at? k = u.at? k) :
    Leads u K p xs n q m := by
  have hchild {p : Place} {s : Bytes} {e : Entry} (hk : K (s :: p))
      (hc : t.child? p s = .ok (some e)) : u.child? p s = .ok (some e) := by
    rw [child?_eq_ok_iff, htu _ hk] at hc
    exact child?_eq_ok_iff.2 hc
  induction h with
  | done hp => exact .done hp
  | here hp hd _ ih => exact .here hp (htu _ hp ▸ hd) ih
  | outside hp hd _ ih => exact .outside hp (htu _ hp ▸ hd) ih
  | entry hp hd hs hc he rest ih => exact .entry hp (htu _ hp ▸ hd) hs (hchild rest.start hc) he ih
  | link hp hd hs hl hc _ ih => exact .link hp (htu _ hp ▸ hd) hs hl (hchild hl hc) ih

theorem mono (h : Leads t K p xs n q m) (hK : ∀ k, K k → L k) : Leads t L p xs n q m := by
  induction h with
  | done hp => exact .done (hK _ hp)
  | here hp hd _ ih => exact .here (hK _ hp) hd ih
  | outside hp hd _ ih => exact .outside (hK _ hp) hd ih
  | entry hp hd hs hc he _ ih => exact .entry (hK _ hp) hd hs hc he ih
  | link hp hd hs hl hc _ ih => exact .link (hK _ hp) hd hs (hK _ hl) hc ih

/-- Where something is at the start, there is something all along the way. -/
theorem present (h : Leads t K p xs n q m) (hp : (t.at? p).isSome) :
    Leads t (fun k => K k ∧ (t.at? k).isSome) p xs n q m := by
  have hsome {p : Place} {s : Bytes} {e : Entry} (hc : t.child? p s = .ok (some e)) :
      (t.at? (s :: p)).isSome := by
    simp [(child?_eq_ok_iff.1 hc).2]
  induction h with
  | done hk => exact .done ⟨hk, hp⟩
  | here hk hd _ ih => exact .here ⟨hk, hp⟩ hd (ih hp)
  | @outside p _ _ _ _ hk hd _ ih =>
    refine .outside ⟨hk, hp⟩ hd (ih ?_)
    cases p with
    | nil => rfl
    | cons s p => exact Option.isSome_iff_exists.2 ⟨_, at?_eq_dir_of_cons hd⟩
  | entry hk hd hs hc he _ ih => exact .entry ⟨hk, hp⟩ hd hs hc he (ih (hsome hc))
  | @link p _ target _ _ _ _ hk hd hs hl hc _ ih =>
    refine .link ⟨hk, hp⟩ hd hs ⟨hl, hsome hc⟩ hc (ih ?_)
    unfold startOf
    split
    · rfl
    · exact hp

lemma start_dir (h : Leads t K p xs n q m) (hq : t.at? q = some .dir) : t.at? p = some .dir := by
  cases h with
  | done _ => exact hq
  | here _ hd _ | outside _ hd _ | entry _ hd | link _ hd => exact hd

theorem extend (h : Leads t K p xs n q m) (hq : (t.at? q).isSome) (hu : t ≤ u) :
    Leads u K p xs n q m := by
  have hp : (t.at? p).isSome := by
    cases h with
    | done _ => exact hq
    | here _ hd _ | outside _ hd _ | entry _ hd | link _ hd => simp [hd]
  refine ((h.present hp).congr fun k hk => ?_).mono fun k hk => hk.1
  obtain ⟨e, he⟩ := Option.isSome_iff_exists.1 hk.2
  rw [he, hu k e he]

theorem append (h : Leads t K p xs n r l) (h' : Leads t K r ys l q m) :
    Leads t K p (xs ++ ys) n q m := by
  induction h with
  | done _ => exact h'
  | here hp hd _ ih => exact .here hp hd (ih h')
  | outside hp hd _ ih => exact .outside hp hd (ih h')
  | entry hp hd hs hc he _ ih => exact .entry hp hd hs hc he (ih h')
  | link hp hd hs hl hc _ ih =>
    have hall := ih h'
    rw [List.append_assoc] at hall
    exact .link hp hd hs hl hc hall

lemma concat {e : Entry} (h : Leads t K p xs n q m) (hd : t.at? q = some .dir)
    (hs : s ≠ dot ∧ s ≠ dotDot) (hc : t.child? q s = .ok (some e))
    (he : ∀ target, e ≠ .link target) (hk : K (s :: q)) : Leads t K p (xs ++ [s]) n (s :: q) m :=
  h.append (.entry h.stop hd hs hc he (.done hk))

lemma dots (h : Leads t K p xs n q m) (hd : t.at? q = some .dir) (hys : ∀ y ∈ ys, y = dot) :
    Leads t K p (xs ++ ys) n q m := by
  refine h.append ?_
  induction ys with
  | nil => exact .done h.stop
  | cons y ys ih =>
    obtain ⟨rfl, hrest⟩ := List.forall_mem_cons.1 hys
    exact .here h.stop hd (ih hrest)

lemma solid (h : Leads t K p xs n q m) (hq : t.at? q = some .dir) :
    Leads t (fun k => K k ∧ (t.at? k = some .dir ∨ ∃ target, t.at? k = some (.link target)))
      p xs n q m := by
  induction h with
  | done hp => exact .done ⟨hp, .inl hq⟩
  | here hp hd _ ih => exact .here ⟨hp, .inl hd⟩ hd (ih hq)
  | outside hp hd _ ih => exact .outside ⟨hp, .inl hd⟩ hd (ih hq)
  | entry hp hd hs hc he _ ih => exact .entry ⟨hp, .inl hd⟩ hd hs hc he (ih hq)
  | link hp hd hs hl hc _ ih =>
    exact .link ⟨hp, .inl hd⟩ hd hs ⟨hl, .inr ⟨_, (child?_eq_ok_iff.1 hc).2⟩⟩ hc (ih hq)

/-- Where a tree holds less of what is on a way, the way stays what it is or comes to a place where
nothing is. -/
theorem thin (h : Leads t K p xs n q m)
    (hat : ∀ k, K k → u.at? k = none ∨ u.at? k = t.at? k) :
    Leads u K p xs n q m ∨ u.walk p xs n = .error .noEntry ∨
      ∃ s d, u.walk p xs n = .ok (.vacant s d) := by
  induction h with
  | done hp => exact .inl (.done hp)
  | @here p q xs n m hp hd _ ih =>
    rcases hat p hp with hnone | hsame
    · exact .inr (.inl (by rw [walk_cons, hnone]))
    · rw [hd] at hsame
      rw [walk_cons, hsame]
      simpa using ih.imp_left (.here hp hsame)
  | @outside p q xs n m hp hd _ ih =>
    rcases hat p hp with hnone | hsame
    · exact .inr (.inl (by rw [walk_cons, hnone]))
    · rw [hd] at hsame
      rw [walk_cons, hsame]
      simpa [show dotDot ≠ dot by decide] using ih.imp_left (.outside hp hsame)
  | @entry p q s e xs n m hp hd hs hc he rest ih =>
    obtain ⟨hlen, hc⟩ := child?_eq_ok_iff.1 hc
    rcases hat p hp with hnone | hsame
    · exact .inr (.inl (by rw [walk_cons, hnone]))
    · rw [hd] at hsame
      rcases hat (s :: p) rest.start with hnone | hchild
      · have hc' := child?_eq_ok_iff.2 ⟨hlen, hnone⟩
        simp only [walk_cons, hsame, hs.1, hs.2, hc', if_false]
        split <;> simp
      · have hc' := child?_eq_ok_iff.2 ⟨hlen, hchild.trans hc⟩
        simp only [walk_cons, hsame, hs.1, hs.2, hc', if_false]
        refine ih.imp (.entry hp hsame hs hc' he) fun h => ?_
        cases e with
        | link target => exact absurd rfl (he target)
        | dir | file => exact h
  | @link p q s target xs n m hp hd hs hl hc _ ih =>
    obtain ⟨hlen, hc⟩ := child?_eq_ok_iff.1 hc
    rcases hat p hp with hnone | hsame
    · exact .inr (.inl (by rw [walk_cons, hnone]))
    · rw [hd] at hsame
      rcases hat (s :: p) hl with hnone | hchild
      · have hc' := child?_eq_ok_iff.2 ⟨hlen, hnone⟩
        simp only [walk_cons, hsame, hs.1, hs.2, hc', if_false]
        split <;> simp
      · have hc' := child?_eq_ok_iff.2 ⟨hlen, hchild.trans hc⟩
        simp only [walk_cons, hsame, hs.1, hs.2, hc', if_false]
        exact ih.imp_left (.link hp hsame hs hl hc')

lemma restrict (h : Leads t K p xs n q m) (hu : u ≤ t) :
    Leads u K p xs n q m ∨ u.walk p xs n = .error .noEntry ∨
      ∃ s d, u.walk p xs n = .ok (.vacant s d) :=
  h.thin fun k _ => le_iff.1 hu k

end Leads

/-- What holds of lookups, by what is left of one: a link leaves fewer links and maybe more steps,
every other step leaves fewer steps. -/
@[elab_as_elim]
theorem walk_induction {motive : Place → List Bytes → ℕ → Prop} (nil : ∀ p n, motive p [] n)
    (cons : ∀ p s xs n, (∀ q, motive q xs n) → (∀ q ys m, m < n → motive q ys m) →
      motive p (s :: xs) n) (p : Place) (xs : List Bytes) (n : ℕ) : motive p xs n := by
  induction n using Nat.strongRecOn generalizing p xs with
  | ind n ihn =>
    induction xs generalizing p with
    | nil => exact nil p n
    | cons s xs ih => exact cons p s xs n ih fun q ys m hm => ihn m hm q ys

theorem leads_of_walk (h : t.walk p xs n = .ok (.entry q)) :
    ∃ m, Leads t (fun _ => True) p xs n q m := by
  induction p, xs, n using walk_induction with
  | nil p n =>
    rw [walk_nil] at h
    cases h
    exact ⟨n, .done trivial⟩
  | cons p s xs n ih ihn =>
    rw [walk_cons] at h
    split at h
    · cases h
    · rename_i hd
      split at h
      · rename_i hs
        obtain ⟨m, hm⟩ := ih p h
        exact ⟨m, hs ▸ .here trivial hd hm⟩
      · rename_i hdot
        split at h
        · rename_i hs
          obtain ⟨m, hm⟩ := ih p.tail h
          exact ⟨m, hs ▸ .outside trivial hd hm⟩
        · rename_i hdots
          split at h
          · cases h
          · split at h <;> cases h
          · rename_i target hc
            cases n with
            | zero => cases h
            | succ n =>
              obtain ⟨m, hm⟩ := ihn _ _ n (Nat.lt_succ_self n) h
              exact ⟨m, .link trivial hd ⟨hdot, hdots⟩ trivial hc hm⟩
          · rename_i e he hc
            obtain ⟨m, hm⟩ := ih (s :: p) h
            exact ⟨m, .entry trivial hd ⟨hdot, hdots⟩ hc he hm⟩
    · cases h

end FirmwareTasks.Tree
