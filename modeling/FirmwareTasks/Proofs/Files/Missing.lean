import FirmwareTasks.Proofs.Files.Lookup
/-!
Lookups that come to a place where nothing is. Only what comes in at such a place lets a path lead
elsewhere than before.
-/
namespace FirmwareTasks.Tree
open FirmwareTasks.Path (dot dotDot)

/-- Steps lead to a place where nothing is. Links on the way are followed, and what else is on it is
a directory. -/
inductive Misses (t : Tree) : Place → List Bytes → ℕ → Place → Prop
  | stop {p : Place} {xs : List Bytes} {n : ℕ} (hp : t.at? p = none) : Misses t p xs n p
  | here {p k : Place} {xs : List Bytes} {n : ℕ} (hd : t.at? p = some .dir)
      (rest : Misses t p xs n k) : Misses t p (dot :: xs) n k
  | outside {p k : Place} {xs : List Bytes} {n : ℕ} (hd : t.at? p = some .dir)
      (rest : Misses t p.tail xs n k) : Misses t p (dotDot :: xs) n k
  | name {p k : Place} {s : Bytes} {o : Option Entry} {xs : List Bytes} {n : ℕ}
      (hd : t.at? p = some .dir) (hs : s ≠ dot ∧ s ≠ dotDot) (hc : t.child? p s = .ok o)
      (hl : ∀ target, o ≠ some (.link target)) (rest : Misses t (s :: p) xs n k) :
      Misses t p (s :: xs) n k
  | link {p k : Place} {s target : Bytes} {xs : List Bytes} {n : ℕ} (hd : t.at? p = some .dir)
      (hs : s ≠ dot ∧ s ≠ dotDot) (hc : t.child? p s = .ok (some (.link target)))
      (rest : Misses t (startOf p ⟨target⟩) (Path.steps ⟨target⟩ ++ xs) n k) :
      Misses t p (s :: xs) (n + 1) k

variable {t u : Tree} {site : Site} {path : Path} {p k j : Place} {xs : List Bytes} {n : ℕ}

lemma Misses.at?_eq_none (h : Misses t p xs n k) : t.at? k = none := by
  induction h <;> assumption

theorem Misses.unique (h : Misses t p xs n k) (h' : Misses t p xs n j) : k = j := by
  induction h with
  | stop hp =>
    cases h' with
    | stop => rfl
    | here hd | outside hd | name hd | link hd =>
      rw [hp] at hd
      cases hd
  | here hd _ ih =>
    cases h' with
    | stop hp =>
      rw [hd] at hp
      cases hp
    | here _ rest => exact ih rest
    | name _ hs | link _ hs => exact absurd rfl hs.1
  | outside hd _ ih =>
    cases h' with
    | stop hp =>
      rw [hd] at hp
      cases hp
    | outside _ rest => exact ih rest
    | name _ hs | link _ hs => exact absurd rfl hs.2
  | name hd hs hc hl _ ih =>
    cases h' with
    | stop hp =>
      rw [hd] at hp
      cases hp
    | here => exact absurd rfl hs.1
    | outside => exact absurd rfl hs.2
    | name _ _ _ _ rest => exact ih rest
    | link _ _ hc' =>
      rw [hc] at hc'
      exact absurd (Except.ok.inj hc') (hl _)
  | link hd hs hc _ ih =>
    cases h' with
    | stop hp =>
      rw [hd] at hp
      cases hp
    | here => exact absurd rfl hs.1
    | outside => exact absurd rfl hs.2
    | name _ _ hc' hl =>
      rw [hc] at hc'
      exact absurd (Except.ok.inj hc').symm (hl _)
    | link _ _ hc' rest =>
      rw [hc] at hc'
      cases hc'
      exact ih rest

/-- A path leads to a place where nothing is. -/
def PathMisses (t : Tree) (site : Site) (path : Path) (k : Place) : Prop :=
  Misses t (startOf site.cwd path) path.steps linkLimit k

/-- In a larger tree a lookup goes as before, or it had come to where something is by now. -/
theorem walk_eq_or_misses (htu : t ≤ u) (p : Place) (xs : List Bytes) (n : ℕ) :
    u.walk p xs n = t.walk p xs n ∨ ∃ k, Misses t p xs n k ∧ (u.at? k).isSome := by
  induction p, xs, n using walk_induction with
  | nil p n => exact .inl (by simp)
  | cons p s xs n ih ihn =>
    -- the next step goes the same way, so what is left decides
    have hgo {P Q : Place → Prop} {R : Prop} (h : R ∨ ∃ k, P k ∧ (u.at? k).isSome)
        (hPQ : ∀ k, P k → Q k) : R ∨ ∃ k, Q k ∧ (u.at? k).isSome :=
      h.imp_right fun ⟨k, hk, hsome⟩ => ⟨k, hPQ k hk, hsome⟩
    rw [walk_cons, walk_cons]
    cases hp : t.at? p with
    | none =>
      cases hu : u.at? p with
      | none => exact .inl rfl
      | some e => exact .inr ⟨p, .stop hp, by simp [hu]⟩
    | some e =>
      rw [htu p e hp]
      cases e with
      | file | link => exact .inl rfl
      | dir =>
        dsimp only
        by_cases hdot : s = dot
        · subst hdot
          simpa using hgo (ih p) fun k => .here hp
        · by_cases hdots : s = dotDot
          · subst hdots
            simpa [show dotDot ≠ dot by decide] using hgo (ih p.tail) fun k => .outside hp
          · rw [if_neg hdot, if_neg hdots, if_neg hdot, if_neg hdots]
            cases hc : t.child? p s with
            | error e =>
              rw [child?_eq_error_iff.2 (child?_eq_error_iff.1 hc)]
              exact .inl rfl
            | ok o =>
              obtain ⟨hlen, hat⟩ := child?_eq_ok_iff.1 hc
              cases o with
              | none =>
                cases hu : u.at? (s :: p) with
                | none =>
                  rw [child?_eq_ok_iff.2 ⟨hlen, hu⟩]
                  exact .inl rfl
                | some e =>
                  exact .inr ⟨s :: p, .name hp ⟨hdot, hdots⟩ hc (by simp) (.stop hat), by simp [hu]⟩
              | some e =>
                rw [child?_eq_ok_iff.2 ⟨hlen, htu _ _ hat⟩]
                cases e with
                | dir | file =>
                  exact hgo (ih (s :: p)) fun k => .name hp ⟨hdot, hdots⟩ hc (by simp)
                | link target =>
                  cases n with
                  | zero => exact .inl rfl
                  | succ n =>
                    exact hgo (ihn _ _ n (Nat.lt_succ_self n)) fun k =>
                      .link hp ⟨hdot, hdots⟩ hc

/-- In a larger tree a path leads to where it has led, or it has come to a place where something is
by now. -/
theorem follow_eq_or_misses (htu : t ≤ u) (site : Site) (path : Path) :
    u.follow site path = t.follow site path ∨
      ∃ k, t.PathMisses site path k ∧ (u.at? k).isSome := by
  refine (walk_eq_or_misses htu (startOf site.cwd path) path.steps linkLimit).imp_left fun h => ?_
  simp only [follow, find, h]

end FirmwareTasks.Tree
