import FirmwareTasks.Proofs.Run.Log
import FirmwareTasks.Run.Change
/-!
Actions as scripts. A script is put together from a few kinds of steps, each within a footprint:
what it may write or log, which calls it may hand to the runner, and how it may fail by itself. What
holds of all scripts follows by induction on how they are put together.
-/
namespace FirmwareTasks
variable {σ α β : Type}

/-- Bounds on what an action does, apart from what the runner does for it. -/
structure Footprint where
  emits : Emission → Prop
  launches : Invocation → Prop
  raises : Error → Prop

/-- An event within a footprint. -/
def Footprint.Shows (F : Footprint) : Event → Prop
  | .own e => F.emits e
  | .launch inv _ => F.launches inv

/-- Actions made of steps within a footprint. What follows a step is bound only for the values that
the step can have. -/
inductive Script (ctx : Context σ) (F : Footprint) : {α : Type} → Act σ α → Prop
  | pure {α : Type} (a : α) : Script ctx F (Pure.pure a : Act σ α)
  | throw {α : Type} {e : Error} (h : F.raises e) : Script ctx F (throw e : Act σ α)
  | emit {e : Emission} (h : F.emits e) : Script ctx F (Act.emit e)
  | files {α : Type} {wrap : IoError → Error} {call : FileCall α}
      (h : ∀ cause, F.raises (wrap cause)) : Script ctx F (Act.files wrap call)
  | launch {inv : Invocation} (h : F.launches inv) : Script ctx F (ctx.launch inv)
  | look {α : Type} {f : Tree → Act σ α} (h : ∀ t, Script ctx F (f t)) :
      Script ctx F (get >>= fun w => f w.tree)
  | bind {α β : Type} {m : Act σ α} {f : α → Act σ β} (first : Script ctx F m)
      (rest : ∀ a w u, m w = .ok a u → Script ctx F (f a)) : Script ctx F (m >>= f)

/-- The world that the runner leaves when it has been handed a call. -/
def Context.launched (ctx : Context σ) (inv : Invocation) (w : World σ) : World σ :=
  let out := ctx.runner inv w.runner w.tree
  ⟨out.tree, out.state, w.events ++ [.launch inv out.emissions]⟩

lemma Context.launch_of_ok {ctx : Context σ} {inv : Invocation} {w : World σ}
    (h : (ctx.runner inv w.runner w.tree).result = .ok ()) :
    ctx.launch inv w = .ok () (ctx.launched inv w) := by
  change (ofExcept (ctx.runner inv w.runner w.tree).result : Act σ Unit) (ctx.launched inv w) = _
  rw [h]
  rfl

lemma Context.launch_of_error {ctx : Context σ} {inv : Invocation} {w : World σ} {e : Error}
    (h : (ctx.runner inv w.runner w.tree).result = .error e) :
    ctx.launch inv w = .error e (ctx.launched inv w) := by
  change (ofExcept (ctx.runner inv w.runner w.tree).result : Act σ Unit) (ctx.launched inv w) = _
  rw [h]
  rfl

lemma Context.state_launch (ctx : Context σ) (inv : Invocation) (w : World σ) :
    (ctx.launch inv w).state = ctx.launched inv w := by
  cases h : (ctx.runner inv w.runner w.tree).result with
  | ok _ => rw [launch_of_ok h]; rfl
  | error e => rw [launch_of_error h]; rfl

namespace Act

@[simp] lemma emit_apply (e : Emission) (w : World σ) :
    emit e w = .ok () { w with events := w.events ++ [.own e] } := rfl

lemma files_of_ok {wrap : IoError → Error} {call : FileCall α} {w : World σ} {a : α} {t : Tree}
    (h : call w.tree = .ok a t) : files wrap call w = .ok a { w with tree := t } := by
  rw [files, h]

lemma files_of_error {wrap : IoError → Error} {call : FileCall α} {w : World σ} {e : IoError}
    {t : Tree} (h : call w.tree = .error e t) :
    files wrap call w = .error (wrap e) { w with tree := t } := by
  rw [files, h]

lemma files_congr {wrap : IoError → Error} {call call' : FileCall α} {w : World σ}
    (h : call w.tree = call' w.tree) : files wrap call w = files wrap call' w := by
  rw [files, files, h]

lemma files_ends {call : FileCall α} {w : World σ} {P E : Tree → Prop} (wrap : IoError → Error)
    (h : (call w.tree).Ends P E) :
    (files wrap call w).Ends (fun v => P v.tree) fun v => E v.tree := by
  cases hc : call w.tree with
  | ok a t =>
    rw [hc] at h
    rw [files_of_ok hc]
    exact h
  | error e t =>
    rw [hc] at h
    rw [files_of_error hc]
    exact h

end Act

namespace Script
variable {ctx : Context σ} {F : Footprint} {m : Act σ α}

lemma mono {G : Footprint} (hemits : ∀ e, F.emits e → G.emits e)
    (hlaunches : ∀ inv, F.launches inv → G.launches inv) (hraises : ∀ e, F.raises e → G.raises e)
    (h : Script ctx F m) : Script ctx G m := by
  induction h with
  | pure a => exact .pure a
  | throw h => exact .throw (hraises _ h)
  | emit h => exact .emit (hemits _ h)
  | files h => exact .files fun cause => hraises _ (h cause)
  | launch h => exact .launch (hlaunches _ h)
  | look _ ih => exact .look ih
  | bind _ _ ihm ihf => exact .bind ihm ihf

theorem blind (h : Script ctx F m) : Act.Blind m := by
  induction h with
  | pure a => exact fun _ _ => rfl
  | throw _ => exact fun _ _ => rfl
  | emit _ =>
    intro past w
    simp [EStateM.Result.mapState, World.after]
  | @files _ wrap call _ =>
    intro past w
    cases h : call w.tree with
    | ok a t => rw [Act.files_of_ok h, Act.files_of_ok (w := w.after past) h]; rfl
    | error e t => rw [Act.files_of_error h, Act.files_of_error (w := w.after past) h]; rfl
  | @launch inv _ =>
    intro past w
    have hl : ctx.launched inv (w.after past) = (ctx.launched inv w).after past := by
      simp [Context.launched, World.after]
    cases h : (ctx.runner inv w.runner w.tree).result with
    | ok _ => rw [Context.launch_of_ok h, Context.launch_of_ok (w := w.after past) h, hl]; rfl
    | error e =>
      rw [Context.launch_of_error h, Context.launch_of_error (w := w.after past) h, hl]; rfl
  | look _ ih => exact fun past w => ih w.tree past w
  | bind _ _ ihm ihf => exact ihm.bind ihf

/-- A script adds events, all of them within its footprint, and takes none away. -/
theorem events (h : Script ctx F m) (w : World σ) :
    ∃ es, (m w).state.events = w.events ++ es ∧ ∀ e ∈ es, F.Shows e := by
  induction h generalizing w with
  | pure _ | throw _ => exact ⟨[], (List.append_nil w.events).symm, by simp⟩
  | @emit e h => exact ⟨[.own e], rfl, by simpa [Footprint.Shows] using h⟩
  | @files _ wrap call _ =>
    refine ⟨[], ?_, by simp⟩
    cases h : call w.tree with
    | ok a t => rw [Act.files_of_ok h]; simp [EStateM.Result.state]
    | error e t => rw [Act.files_of_error h]; simp [EStateM.Result.state]
  | @launch inv h =>
    exact ⟨[.launch inv _], by rw [Context.state_launch]; rfl, by simpa [Footprint.Shows] using h⟩
  | look _ ih => exact ih w.tree w
  | @bind _ _ m f _ _ ihm ihf =>
    obtain ⟨es, he, hes⟩ := ihm w
    cases h : m w with
    | error e u =>
      rw [EStateM.bind_of_error h]
      rw [h] at he
      exact ⟨es, he, hes⟩
    | ok a u =>
      rw [h] at he
      obtain ⟨fs, hf, hfs⟩ := ihf a w u h u
      refine ⟨es ++ fs, ?_, ?_⟩
      · rw [EStateM.bind_of_ok h, hf, ← List.append_assoc]
        exact congrArg (· ++ fs) he
      · intro e hm
        exact (List.mem_append.1 hm).elim (hes e) (hfs e)

end Script
end FirmwareTasks
