import Mathlib.Data.List.Induction
import Mathlib.Logic.Relation
import FirmwareTasks.Task.Plan
/-!
Plans against the expansion of a request. The expansion of a task is all that runs for it, with
repeats; planning shares one list between the requested tasks and looks into it only on entry to a
task. It still gives the expansions one after another, less what stands there already.
-/
namespace FirmwareTasks.Task
open Relation

/-- What runs before a task, each with what runs before that, and then the task itself. -/
def expand (t : Task) : List Task := t.prerequisites.attach.flatMap (fun p => expand p.1) ++ [t]
termination_by t.depth
decreasing_by exact depth_lt_of_mem_prerequisites p.2

/-- `p` runs before `t`. -/
def Requires (t p : Task) : Prop := p ∈ t.prerequisites

lemma expand_eq (t : Task) : t.expand = t.prerequisites.flatMap expand ++ [t] := by
  rw [expand, List.flatMap_subtype (g := expand) (fun _ _ => rfl), List.unattach_attach]

lemma mem_expand_self (t : Task) : t ∈ t.expand := by
  rw [expand_eq]
  exact List.mem_append_right _ (List.mem_singleton_self t)

@[elab_as_elim]
theorem induction_on {motive : Task → Prop} (t : Task)
    (h : ∀ t, (∀ p ∈ t.prerequisites, motive p) → motive t) : motive t := by
  induction hd : t.depth using Nat.strongRecOn generalizing t with
  | _ d ih =>
    apply h
    intro p hp
    exact ih p.depth (hd ▸ depth_lt_of_mem_prerequisites hp) p rfl

/-- The expansion of a task holds the task and what it requires, directly or not. -/
theorem mem_expand {t q : Task} : q ∈ t.expand ↔ ReflTransGen Requires t q := by
  induction t using induction_on with
  | h t ih =>
    rw [expand_eq, List.mem_append, List.mem_flatMap, List.mem_singleton]
    constructor
    · rintro (⟨p, hp, hq⟩ | rfl)
      · exact .head hp ((ih p hp).1 hq)
      · exact .refl
    · intro h
      rcases h.cases_head with rfl | ⟨p, hp, hq⟩
      · exact .inr rfl
      · exact .inl ⟨p, hp, (ih p hp).2 hq⟩

lemma depth_le_of_requires {t q : Task} (h : ReflTransGen Requires t q) : q.depth ≤ t.depth := by
  induction h with
  | refl => exact Nat.le_refl _
  | tail _ hp ih => exact Nat.le_trans (Nat.le_of_lt (depth_lt_of_mem_prerequisites hp)) ih

/-- Every task of the list stands after all that run before it. -/
inductive Ordered : List Task → Prop
  | nil : Ordered []
  | concat {l t} (before : Ordered l) (met : ∀ p ∈ t.prerequisites, p ∈ l) : Ordered (l ++ [t])

namespace Ordered

theorem mem_of_append_cons {l : List Task} (h : Ordered l) {xs ys : List Task} {t p : Task}
    (hl : l = xs ++ t :: ys) (hp : p ∈ t.prerequisites) : p ∈ xs := by
  induction h generalizing ys with
  | nil => simp at hl
  | @concat l u before met ih =>
    rcases List.eq_nil_or_concat ys with rfl | ⟨ys, v, rfl⟩
    · obtain ⟨rfl, hu⟩ := List.append_inj' hl rfl
      obtain rfl := List.singleton_inj.1 hu
      exact met p hp
    · have hs : l ++ [u] = (xs ++ t :: ys) ++ [v] := by simpa using hl
      exact ih (List.append_inj' hs rfl).1

theorem closed {l : List Task} (h : Ordered l) {t q : Task} (ht : t ∈ l)
    (hq : ReflTransGen Requires t q) : q ∈ l := by
  induction hq with
  | refl => exact ht
  | tail _ hp ih =>
    obtain ⟨xs, ys, hl⟩ := List.append_of_mem ih
    rw [hl]
    exact List.mem_append_left _ (h.mem_of_append_cons hl hp)

lemma append_flatMap_expand {ps : List Task}
    (hps : ∀ p ∈ ps, ∀ l, Ordered l → Ordered (l ++ p.expand)) {l : List Task} (h : Ordered l) :
    Ordered (l ++ ps.flatMap expand) := by
  induction ps generalizing l with
  | nil => simpa using h
  | cons p ps ih =>
    rw [List.flatMap_cons, ← List.append_assoc]
    exact ih (fun q hq => hps q (List.mem_cons_of_mem p hq))
      (hps p List.mem_cons_self l h)

theorem append_expand (t : Task) : ∀ l, Ordered l → Ordered (l ++ t.expand) := by
  induction t using induction_on with
  | h t ih =>
    intro l h
    rw [expand_eq, ← List.append_assoc]
    refine .concat (append_flatMap_expand ih h) ?_
    intro p hp
    exact List.mem_append_right l (List.mem_flatMap.2 ⟨p, hp, mem_expand_self p⟩)

end Ordered

section EraseDups
variable {α : Type} [DecidableEq α]

lemma eraseDups_concat (l : List α) (a : α) :
    (l ++ [a]).eraseDups = if a ∈ l then l.eraseDups else l.eraseDups ++ [a] := by
  rw [List.eraseDups_append]
  by_cases ha : a ∈ l <;> simp [List.removeAll, List.eraseDups_cons, ha]

lemma eraseDups_append_of_subset {l m : List α} (h : ∀ a ∈ m, a ∈ l) :
    (l ++ m).eraseDups = l.eraseDups := by
  have hm : m.removeAll l = [] := by simpa [List.removeAll] using h
  rw [List.eraseDups_append, hm, List.eraseDups_nil, List.append_nil]

theorem nodup_eraseDups (l : List α) : l.eraseDups.Nodup := by
  induction l using List.reverseRecOn with
  | nil => exact List.nodup_nil
  | append_singleton l a ih =>
    rw [eraseDups_concat]
    split
    · exact ih
    · rename_i ha
      refine List.nodup_append.2 ⟨ih, by simp, ?_⟩
      rintro b hb c hc rfl
      exact ha (List.mem_singleton.1 hc ▸ List.mem_eraseDups.1 hb)

lemma eraseDups_filter (p : α → Bool) (l : List α) :
    (l.filter p).eraseDups = l.eraseDups.filter p := by
  induction l using List.reverseRecOn with
  | nil => rfl
  | append_singleton l a ih =>
    rw [List.filter_append, eraseDups_concat]
    cases hp : p a with
    | false => split <;> simp [ih, hp]
    | true =>
      have hm : a ∈ l.filter p ↔ a ∈ l := by simp [hp]
      rw [List.filter_cons_of_pos hp, List.filter_nil, eraseDups_concat, ih]
      simp only [hm]
      split <;> simp [hp]

end EraseDups

lemma Ordered.eraseDups {l : List Task} (h : Ordered l) : Ordered l.eraseDups := by
  induction h with
  | nil => exact .nil
  | @concat l t before met ih =>
    rw [eraseDups_concat]
    split
    · exact ih
    · exact .concat ih fun p hp => List.mem_eraseDups.2 (met p hp)

lemma foldl_visit_eraseDups {ps : List Task}
    (hps : ∀ p ∈ ps, ∀ l, Ordered l → p.visit l.eraseDups = (l ++ p.expand).eraseDups)
    {l : List Task} (h : Ordered l) :
    ps.foldl (fun order p => p.visit order) l.eraseDups = (l ++ ps.flatMap expand).eraseDups := by
  induction ps generalizing l with
  | nil => simp
  | cons p ps ih =>
    rw [List.foldl_cons, hps p List.mem_cons_self l h, List.flatMap_cons, ← List.append_assoc]
    exact ih (fun q hq => hps q (List.mem_cons_of_mem p hq)) (h.append_expand p l)

lemma not_mem_flatMap_expand (t : Task) : t ∉ t.prerequisites.flatMap expand := by
  intro h
  obtain ⟨p, hp, ht⟩ := List.mem_flatMap.1 h
  have hd := depth_lt_of_mem_prerequisites hp
  have hle : t.depth ≤ p.depth := depth_le_of_requires (mem_expand.1 ht)
  omega

/-- Entering a task in the middle of planning adds what of its expansion is not planned yet. -/
theorem visit_eraseDups (t : Task) :
    ∀ l, Ordered l → t.visit l.eraseDups = (l ++ t.expand).eraseDups := by
  induction t using induction_on with
  | h t ih =>
    intro l h
    by_cases ht : t ∈ l
    · rw [visit_of_mem (List.mem_eraseDups.2 ht), eraseDups_append_of_subset]
      intro q hq
      exact h.closed ht (mem_expand.1 hq)
    · rw [visit_eq, if_neg (mt List.mem_eraseDups.1 ht), foldl_visit_eraseDups ih h, expand_eq,
        ← List.append_assoc, eraseDups_concat, if_neg]
      intro hm
      rcases List.mem_append.1 hm with hm | hm
      · exact ht hm
      · exact not_mem_flatMap_expand t hm

/-- A plan holds the expansions of the requested tasks, each task where it stands first. -/
theorem plan_eq_eraseDups (requested : List Task) :
    plan requested = (requested.flatMap expand).eraseDups :=
  foldl_visit_eraseDups (fun t _ => visit_eraseDups t) .nil

theorem ordered_plan (requested : List Task) : Ordered (plan requested) := by
  rw [plan_eq_eraseDups]
  exact (Ordered.append_flatMap_expand (fun t _ => Ordered.append_expand t) .nil).eraseDups

theorem nodup_plan (requested : List Task) : (plan requested).Nodup := by
  rw [plan_eq_eraseDups]
  exact nodup_eraseDups _

theorem mem_plan {requested : List Task} {t : Task} :
    t ∈ plan requested ↔ ∃ r ∈ requested, ReflTransGen Requires r t := by
  simp only [plan_eq_eraseDups, List.mem_eraseDups, List.mem_flatMap, mem_expand]

/-- Requesting more only adds to a plan, and adds what is not planned yet. -/
theorem plan_append_eq (xs ys : List Task) :
    plan (xs ++ ys) = plan xs ++ (plan ys).filter (· ∉ plan xs) := by
  rw [plan_eq_eraseDups (xs ++ ys), List.flatMap_append, List.eraseDups_append, List.removeAll,
    eraseDups_filter, ← plan_eq_eraseDups xs, ← plan_eq_eraseDups ys]
  congr 1
  apply List.filter_congr
  intro t _
  have ht : t ∈ plan xs ↔ t ∈ xs.flatMap expand := by rw [plan_eq_eraseDups, List.mem_eraseDups]
  simp only [List.elem_eq_mem, ht, decide_not]

/-- In an ordered list, what runs before a task stands strictly before it. -/
theorem Ordered.exists_lt {l : List Task} (h : Ordered l) {i : ℕ} {t p : Task}
    (hi : l[i]? = some t) (hp : p ∈ t.prerequisites) : ∃ j < i, l[j]? = some p := by
  obtain ⟨hlt, rfl⟩ := List.getElem?_eq_some_iff.1 hi
  have hl : l = l.take i ++ l[i] :: l.drop (i + 1) := by simp
  obtain ⟨j, hj, rfl⟩ := List.getElem_of_mem (h.mem_of_append_cons hl hp)
  have hji : j < i := by simp at hj; omega
  exact ⟨j, hji, by simp⟩

/-- Planning gives the expansions of the requested tasks without repeats: each planned task once,
nothing but what the request needs, and every task after all that run before it. -/
theorem plan_is_expansion_in_order (requested : List Task) :
    plan requested = (requested.flatMap expand).eraseDups ∧
      (plan requested).Nodup ∧
      (∀ t, t ∈ plan requested ↔ ∃ r ∈ requested, ReflTransGen Requires r t) ∧
      ∀ (i : ℕ) (t p : Task), (plan requested)[i]? = some t → p ∈ t.prerequisites →
        ∃ j < i, (plan requested)[j]? = some p :=
  ⟨plan_eq_eraseDups requested, nodup_plan requested, fun _ => mem_plan,
    fun _ _ _ hi hp => (ordered_plan requested).exists_lt hi hp⟩

end FirmwareTasks.Task
