import FirmwareTasks.Proofs.Files.Way
/-!
Where a path heads. Steps head for a place at which they end if every name on the way, unless it is
that of a link, is the name of a directory. A lookup ends there or is refused; trees that hold the
same on the way give it the same answer.
-/
namespace FirmwareTasks.Tree
open FirmwareTasks.Path (dot dotDot)

/-- Two trees hold the same at the places in `K`. -/
def AgreeOn (K : Place → Prop) (t u : Tree) : Prop := ∀ k, K k → t.at? k = u.at? k

/-- Steps head from one place for another by way of places in `K`, whatever is there but for
links. -/
inductive Heads (t : Tree) (K : Place → Prop) : Place → List Bytes → ℕ → Place → ℕ → Prop
  | done {p : Place} {n : ℕ} (hp : K p) : Heads t K p [] n p n
  | here {p q : Place} {xs : List Bytes} {n m : ℕ} (hp : K p) (rest : Heads t K p xs n q m) :
      Heads t K p (dot :: xs) n q m
  | outside {p q : Place} {xs : List Bytes} {n m : ℕ} (hp : K p)
      (rest : Heads t K p.tail xs n q m) : Heads t K p (dotDot :: xs) n q m
  | name {p q : Place} {s : Bytes} {xs : List Bytes} {n m : ℕ} (hp : K p)
      (hs : s ≠ dot ∧ s ≠ dotDot) (hl : ∀ target, t.at? (s :: p) ≠ some (.link target))
      (rest : Heads t K (s :: p) xs n q m) : Heads t K p (s :: xs) n q m
  | link {p q : Place} {s target : Bytes} {xs : List Bytes} {n m : ℕ} (hp : K p)
      (hs : s ≠ dot ∧ s ≠ dotDot) (hk : K (s :: p)) (hl : t.at? (s :: p) = some (.link target))
      (rest : Heads t K (startOf p ⟨target⟩) (Path.steps ⟨target⟩ ++ xs) n q m) :
      Heads t K p (s :: xs) (n + 1) q m

variable {t u : Tree} {K L : Place → Prop} {p q r : Place} {s : Bytes} {xs ys zs : List Bytes}
  {n m l : ℕ}

/-- What comes of a step, if it is taken in a directory. -/
def stepIn (t : Tree) (p : Place) (next : Except IoError Spot) : Except IoError Spot :=
  match t.at? p with
  | none => .error .noEntry
  | some .dir => next
  | some _ => .error .notDirectory

lemma stepIn_congr (h : t.at? p = u.at? p) (next : Except IoError Spot) :
    t.stepIn p next = u.stepIn p next := by
  rw [stepIn, stepIn, h]

lemma stepIn_eq_ok_iff {next : Except IoError Spot} {o : Spot} :
    t.stepIn p next = .ok o ↔ t.at? p = some .dir ∧ next = .ok o := by
  unfold stepIn
  split <;> simp_all

lemma walk_dot (t : Tree) (p : Place) (xs : List Bytes) (n : ℕ) :
    t.walk p (dot :: xs) n = t.stepIn p (t.walk p xs n) := by
  rw [walk_cons, if_pos rfl]
  rfl

lemma walk_dotDot (t : Tree) (p : Place) (xs : List Bytes) (n : ℕ) :
    t.walk p (dotDot :: xs) n = t.stepIn p (t.walk p.tail xs n) := by
  rw [walk_cons, if_neg (by decide), if_pos rfl]
  rfl

lemma walk_name (hs : s ≠ dot ∧ s ≠ dotDot) (hl : ∀ target, t.at? (s :: p) ≠ some (.link target)) :
    t.walk p (s :: xs) n = t.stepIn p
      (match t.child? p s with
      | .error e => .error e
      | .ok none => if xs = [] then .ok (.vacant s p) else .error .noEntry
      | .ok (some _) => t.walk (s :: p) xs n) := by
  rw [walk_cons, if_neg hs.1, if_neg hs.2, stepIn]
  cases hc : t.child? p s with
  | error e => rfl
  | ok o =>
    rcases o with _ | _ | _ | target
    · rfl
    · rfl
    · rfl
    · exact absurd (child?_eq_ok_iff.1 hc).2 (hl target)

lemma walk_link {target : Bytes} (hs : s ≠ dot ∧ s ≠ dotDot)
    (hl : t.at? (s :: p) = some (.link target)) :
    t.walk p (s :: xs) (n + 1) = t.stepIn p
      (match t.child? p s with
      | .error e => .error e
      | .ok _ => t.walk (startOf p ⟨target⟩) (Path.steps ⟨target⟩ ++ xs) n) := by
  rw [walk_cons, if_neg hs.1, if_neg hs.2, stepIn]
  cases hc : t.child? p s with
  | error e => rfl
  | ok o =>
    obtain rfl := (child?_eq_ok_iff.1 hc).2.symm.trans hl
    rfl

lemma Leads.heads (h : Leads t K p xs n q m) : Heads t K p xs n q m := by
  induction h with
  | done hp => exact .done hp
  | here hp _ _ ih => exact .here hp ih
  | outside hp _ _ ih => exact .outside hp ih
  | entry hp _ hs hc he _ ih =>
    refine .name hp hs (fun target hl => ?_) ih
    rw [(child?_eq_ok_iff.1 hc).2, Option.some.injEq] at hl
    exact he target hl
  | link hp _ hs hl hc _ ih => exact .link hp hs hl (child?_eq_ok_iff.1 hc).2 ih

namespace Heads

lemma start (h : Heads t K p xs n q m) : K p := by
  cases h <;> assumption

lemma stop (h : Heads t K p xs n q m) : K q := by
  induction h <;> assumption

theorem append (h : Heads t K p xs n r l) (h' : Heads t K r ys l q m) :
    Heads t K p (xs ++ ys) n q m := by
  induction h with
  | done _ => exact h'
  | here hp _ ih => exact .here hp (ih h')
  | outside hp _ ih => exact .outside hp (ih h')
  | name hp hs hl _ ih => exact .name hp hs hl (ih h')
  | link hp hs hk hl _ ih =>
    have hall := ih h'
    rw [List.append_assoc] at hall
    exact .link hp hs hk hl hall

theorem change (h : Heads t K p xs n q m) (hKL : ∀ k, K k → L k)
    (hu : ∀ k, K k → u.at? k = t.at? k ∨
      (∀ target, t.at? k ≠ some (.link target)) ∧ ∀ target, u.at? k ≠ some (.link target)) :
    Heads u L p xs n q m := by
  induction h with
  | done hp => exact .done (hKL _ hp)
  | here hp _ ih => exact .here (hKL _ hp) ih
  | outside hp _ ih => exact .outside (hKL _ hp) ih
  | @name p _ s _ _ _ hp hs hl rest ih =>
    refine .name (hKL _ hp) hs (fun target => ?_) ih
    rcases hu (s :: p) rest.start with hsame | ⟨-, hnot⟩
    · exact hsame ▸ hl target
    · exact hnot target
  | @link p _ s target _ _ _ hp hs hk hl _ ih =>
    rcases hu (s :: p) hk with hsame | ⟨hnot, -⟩
    · exact .link (hKL _ hp) hs (hKL _ hk) (hsame.trans hl) ih
    · exact absurd hl (hnot target)

lemma congr (h : Heads t K p xs n q m) (htu : AgreeOn K t u) : Heads u K p xs n q m :=
  h.change (fun _ hk => hk) fun k hk => .inl (htu k hk).symm

theorem walk_congr (h : Heads t K p xs n q m) (htu : AgreeOn K t u) :
    t.walk p xs n = u.walk p xs n := by
  have hchild {p : Place} {s : Bytes} (hk : K (s :: p)) : t.child? p s = u.child? p s := by
    rw [child?, child?, htu _ hk]
  induction h with
  | done _ => simp
  | here hp _ ih => rw [walk_dot, walk_dot, ih, stepIn_congr (htu _ hp)]
  | outside hp _ ih => rw [walk_dotDot, walk_dotDot, ih, stepIn_congr (htu _ hp)]
  | @name p _ s xs n _ hp hs hl rest ih =>
    have hl' := htu _ rest.start ▸ hl
    rw [walk_name hs hl, walk_name hs hl', stepIn_congr (htu _ hp), hchild rest.start, ih]
  | @link p _ s target xs n _ hp hs hk hl _ ih =>
    have hl' := htu _ hk ▸ hl
    rw [walk_link hs hl, walk_link hs hl', stepIn_congr (htu _ hp), hchild hk, ih]

/-- A lookup that goes on to an entry has gone where the steps head. -/
theorem leads (h : Heads t K p xs n q m) (hr : t.walk p (xs ++ ys) n = .ok (.entry r)) :
    Leads t K p xs n q m := by
  induction h with
  | done hp => exact .done hp
  | here hp _ ih =>
    rw [List.cons_append, walk_dot, stepIn_eq_ok_iff] at hr
    exact .here hp hr.1 (ih hr.2)
  | outside hp _ ih =>
    rw [List.cons_append, walk_dotDot, stepIn_eq_ok_iff] at hr
    exact .outside hp hr.1 (ih hr.2)
  | name hp hs hl _ ih =>
    rw [List.cons_append, walk_name hs hl, stepIn_eq_ok_iff] at hr
    obtain ⟨hd, hr⟩ := hr
    split at hr
    · cases hr
    · split at hr <;> cases hr
    · rename_i x hc
      refine .entry hp hd hs hc (fun target hx => ?_) (ih hr)
      exact hl target (hx ▸ (child?_eq_ok_iff.1 hc).2)
  | link hp hs hk hl _ ih =>
    rw [List.cons_append, walk_link hs hl, stepIn_eq_ok_iff] at hr
    obtain ⟨hd, hr⟩ := hr
    split at hr
    · cases hr
    · rename_i o hc
      rw [child?_eq_ok_iff, hl] at hc
      rw [← List.append_assoc] at hr
      exact .link hp hd hs hk (child?_eq_ok_iff.2 ⟨hc.1, hl⟩) (ih hr)

lemma walk_eq_entry (h : Heads t K p xs n q m) (hr : t.walk p xs n = .ok (.entry r)) : r = q := by
  have hr' : t.walk p (xs ++ []) n = .ok (.entry r) := by rwa [List.append_nil]
  have hq := (h.leads hr').walk_eq
  rw [hr] at hq
  cases hq
  rfl

theorem split (h : Heads t K p (xs ++ ys) n q m) :
    ∃ r l, Heads t K p xs n r l ∧ Heads t K r ys l q m := by
  generalize hzs : xs ++ ys = zs at h
  induction h generalizing xs with
  | done hp =>
    obtain ⟨rfl, rfl⟩ := List.append_eq_nil_iff.1 hzs
    exact ⟨_, _, .done hp, .done hp⟩
  | here hp rest ih =>
    rcases xs with _ | ⟨s, xs⟩
    · obtain rfl : ys = _ := hzs
      exact ⟨_, _, .done hp, .here hp rest⟩
    · obtain ⟨rfl, rfl⟩ := List.cons.inj hzs
      obtain ⟨r, l, h, h'⟩ := ih rfl
      exact ⟨r, l, .here hp h, h'⟩
  | outside hp rest ih =>
    rcases xs with _ | ⟨s, xs⟩
    · obtain rfl : ys = _ := hzs
      exact ⟨_, _, .done hp, .outside hp rest⟩
    · obtain ⟨rfl, rfl⟩ := List.cons.inj hzs
      obtain ⟨r, l, h, h'⟩ := ih rfl
      exact ⟨r, l, .outside hp h, h'⟩
  | name hp hs hl rest ih =>
    rcases xs with _ | ⟨s, xs⟩
    · obtain rfl : ys = _ := hzs
      exact ⟨_, _, .done hp, .name hp hs hl rest⟩
    · obtain ⟨rfl, rfl⟩ := List.cons.inj hzs
      obtain ⟨r, l, h, h'⟩ := ih rfl
      exact ⟨r, l, .name hp hs hl h, h'⟩
  | link hp hs hk hl rest ih =>
    rcases xs with _ | ⟨s, xs⟩
    · obtain rfl : ys = _ := hzs
      exact ⟨_, _, .done hp, .link hp hs hk hl rest⟩
    · obtain ⟨rfl, rfl⟩ := List.cons.inj hzs
      -- the steps of the link come before what is left of the first part
      obtain ⟨r, l, h, h'⟩ := ih (List.append_assoc _ _ _)
      exact ⟨r, l, .link hp hs hk hl h, h'⟩

end Heads

namespace Leads

theorem split (h : Leads t K p (xs ++ ys) n q m) :
    ∃ r l, Leads t K p xs n r l ∧ Leads t K r ys l q m := by
  obtain ⟨r, l, hr, hq⟩ := h.heads.split
  have hfirst := hr.leads h.walk_eq
  have hrest : t.walk r (ys ++ []) l = .ok (.entry q) := by
    rw [List.append_nil, ← hfirst.walk ys, h.walk_eq]
  exact ⟨r, l, hfirst, hq.leads hrest⟩

lemma eq_of_dots (h : Leads t K p xs n q m) (hxs : ∀ x ∈ xs, x = dot) : q = p ∧ m = n := by
  induction xs with
  | nil => cases h; exact ⟨rfl, rfl⟩
  | cons x xs ih =>
    obtain ⟨rfl, hrest⟩ := List.forall_mem_cons.1 hxs
    cases h with
    | here _ _ rest => exact ih rest hrest
    | entry _ _ hs | link _ _ hs => exact absurd rfl hs.1

lemma of_dots (h : Leads t K p (xs ++ ys) n q m) (hys : ∀ y ∈ ys, y = dot) :
    Leads t K p xs n q m := by
  obtain ⟨r, l, hr, hq⟩ := h.split
  obtain ⟨rfl, rfl⟩ := hq.eq_of_dots hys
  exact hr

end Leads
end FirmwareTasks.Tree
