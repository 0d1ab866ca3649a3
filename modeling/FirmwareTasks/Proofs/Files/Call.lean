import Mathlib.Order.Defs.Unbundled
import FirmwareTasks.Files.Calls
import FirmwareTasks.Proofs.Sequence
/-!
File calls by what they do to the tree. A relation that each single change keeps to is kept to by
whatever is put together from these changes, however it ends.
-/
namespace FirmwareTasks.FileCall
open EStateM

variable {α β : Type} {question : Tree → Except IoError α} {change : Tree → Except IoError Tree}
  {t u : Tree} {a : α} {e : IoError}

lemma ask_of_ok (h : question t = .ok a) : ask question t = .ok a t := by
  rw [ask, h]

lemma ask_of_error (h : question t = .error e) : ask question t = .error e t := by
  rw [ask, h]

lemma alter_of_ok (h : change t = .ok u) : alter change t = .ok () u := by
  rw [alter, h]

lemma alter_of_error (h : change t = .error e) : alter change t = .error e t := by
  rw [alter, h]

lemma eq_of_alter_error (h : alter change t = .error e u) : u = t := by
  cases hc : change t with
  | ok v =>
    rw [alter_of_ok hc] at h
    cases h
  | error e' =>
    rw [alter_of_error hc] at h
    cases h
    rfl

/-- However the call ends, it has changed the tree within a relation. -/
def Within (R : Tree → Tree → Prop) (call : FileCall α) : Prop := ∀ t, R t (call t).state

namespace Within
variable {R : Tree → Tree → Prop} {m : FileCall α}

lemma modify {f : Tree → Tree} (h : ∀ t, R t (f t)) : Within R (modify f : FileCall Unit) := h

lemma look {f : Tree → FileCall α} (h : ∀ t, Within R (f t)) : Within R (get >>= f) :=
  fun t => h t t

variable [IsPreorder Tree R]

lemma pure (a : α) : Within R (Pure.pure a : FileCall α) := fun t => refl_of R t

lemma throw (e : IoError) : Within R (throw e : FileCall α) := fun t => refl_of R t

lemma ask (question : Tree → Except IoError α) : Within R (ask question) := by
  intro t
  cases h : question t with
  | ok a => rw [ask_of_ok h]; exact refl_of R t
  | error e => rw [ask_of_error h]; exact refl_of R t

lemma asking {f : α → FileCall β} (h : ∀ t a, question t = .ok a → R t (f a t).state) :
    Within R (FileCall.ask question >>= f) := by
  intro t
  cases ha : question t with
  | ok a => rw [bind_of_ok (ask_of_ok ha)]; exact h t a ha
  | error e => rw [bind_of_error (ask_of_error ha)]; exact refl_of R t

lemma alter (h : ∀ t u, change t = .ok u → R t u) : Within R (alter change) := by
  intro t
  cases hc : change t with
  | ok u => rw [alter_of_ok hc]; exact h t u hc
  | error e => rw [alter_of_error hc]; exact refl_of R t

lemma bind {f : α → FileCall β} (hm : Within R m) (hf : ∀ a, Within R (f a)) :
    Within R (m >>= f) := by
  intro t
  have hfirst := hm t
  cases h : m t with
  | ok a u =>
    rw [h] at hfirst
    rw [bind_of_ok h]
    exact trans_of R hfirst (hf a u)
  | error e u =>
    rw [h] at hfirst
    rw [bind_of_error h]
    exact hfirst

lemma tryCatch {handle : IoError → FileCall α} (hm : Within R m)
    (hh : ∀ e, Within R (handle e)) : Within R (tryCatch m handle) := by
  intro t
  have hfirst := hm t
  cases h : m t with
  | ok a u =>
    rw [h] at hfirst
    rw [tryCatch_of_ok h]
    exact hfirst
  | error e u =>
    rw [h] at hfirst
    rw [tryCatch_of_error h]
    exact trans_of R hfirst (hh e u)

lemma forIn {l : List β} {body : β → PUnit → FileCall (ForInStep PUnit)}
    (h : ∀ b ∈ l, Within R (body b ⟨⟩)) : Within R (forIn l PUnit.unit body) := by
  induction l with
  | nil => exact .pure _
  | cons b l ih =>
    rw [List.forIn_cons]
    refine .bind (h b (.head l)) fun step => ?_
    cases step with
    | done _ => exact .pure _
    | yield _ => exact ih fun b' hb' => h b' (.tail b hb')

end Within
end FirmwareTasks.FileCall
