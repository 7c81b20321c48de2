import Mathlib.Tactic.TypeStar

/-!
# Runs under observation

A system takes labelled steps, and an observer keeps notes that the system does not
see. `Run` is what a run can lead to, together with the notes taken on the way; a
condition on the steps, which may look at the notes, says which runs are meant.
-/
namespace Dkftpbench.Watch
variable {σ κ γ : Type*}

structure System (σ κ γ : Type*) where
  start : σ → γ → Prop
  step : σ → κ → σ → Prop
  note : γ → σ → κ → σ → γ

/-- The states and notes of the runs whose steps all satisfy `ok`. -/
inductive Run (S : System σ κ γ) (ok : σ → γ → κ → Prop) : σ → γ → Prop
  | start {s : σ} {g : γ} : S.start s g → Run S ok s g
  | next {s s' : σ} {g : γ} {k : κ} : Run S ok s g → ok s g k → S.step s k s' →
      Run S ok s' (S.note g s k s')

variable {S : System σ κ γ} {ok ok' : σ → γ → κ → Prop} {I : σ → γ → Prop} {s : σ} {g : γ}

/-- What holds at the start and is kept by every step meant holds throughout. -/
theorem Run.invariant (hstart : ∀ s g, S.start s g → I s g)
    (hstep : ∀ s g k s', I s g → ok s g k → S.step s k s' → I s' (S.note g s k s'))
    (h : Run S ok s g) : I s g := by
  induction h with
  | start h => exact hstart _ _ h
  | next _ hok hs ih => exact hstep _ _ _ _ ih hok hs

/-- Where the next state is the last thing that a call returns. -/
theorem exists_of_map_snd {α β : Type*} {o : Option (α × β × σ)} {s : σ} (h : (o.map fun r => r.2.2) = some s) :
    ∃ a b, o = some (a, b, s) := by
  obtain ⟨⟨a, b, _⟩, ho, rfl⟩ := Option.map_eq_some_iff.1 h
  exact ⟨a, b, ho⟩

/-- Following a list of labels, where the step is a function. -/
def follow (f : σ → γ → κ → Option σ) (note : γ → σ → κ → σ → γ) : σ → γ → List κ → Option (σ × γ)
  | s, g, [] => some (s, g)
  | s, g, k :: ks => (f s g k).bind fun s' => follow f note s' (note g s k s') ks

theorem Run.follow_mem {f : σ → γ → κ → Option σ} {ks : List κ} {s' : σ} {g' : γ}
    (hf : ∀ k ∈ ks, ∀ s g s', f s g k = some s' → ok s g k ∧ S.step s k s') (h : Run S ok s g)
    (hks : follow f S.note s g ks = some (s', g')) : Run S ok s' g' := by
  induction ks generalizing s g with
  | nil =>
      cases hks
      exact h
  | cons k ks ih =>
      obtain ⟨t, ht, hks⟩ := Option.bind_eq_some_iff.1 hks
      obtain ⟨hok, hs⟩ := hf k List.mem_cons_self s g t ht
      exact ih (fun k hk => hf k (.tail _ hk)) (.next h hok hs) hks

theorem Run.follow {f : σ → γ → κ → Option σ} {ks : List κ} {s' : σ} {g' : γ}
    (hf : ∀ s g k s', f s g k = some s' → ok s g k ∧ S.step s k s') (h : Run S ok s g)
    (hks : follow f S.note s g ks = some (s', g')) : Run S ok s' g' :=
  h.follow_mem (fun k _ s g => hf s g k) hks

/-- A step that is taken if its label is meant. -/
def guarded (ok : σ → γ → κ → Prop) [∀ s g k, Decidable (ok s g k)] (f : σ → κ → Option σ) (s : σ) (g : γ)
    (k : κ) : Option σ :=
  if ok s g k then f s k else none

theorem Run.follow_guarded [∀ s g k, Decidable (ok s g k)] {f : σ → κ → Option σ} {ks : List κ} {s' : σ}
    {g' : γ} (hf : ∀ s k s', f s k = some s' → S.step s k s') (h : Run S ok s g)
    (hks : Watch.follow (guarded ok f) S.note s g ks = some (s', g')) : Run S ok s' g' := by
  apply h.follow _ hks
  intro s g k t ht
  unfold guarded at ht
  split at ht
  · next hk => exact ⟨hk, hf s k t ht⟩
  · cases ht

/-- A run whose labels are meant in every state. -/
theorem Run.follow_all {f : σ → κ → Option σ} {ks : List κ} {s' : σ} {g' : γ}
    (hf : ∀ s k s', f s k = some s' → S.step s k s') (hok : ∀ k ∈ ks, ∀ s g, ok s g k) (h : Run S ok s g)
    (hks : Watch.follow (fun s _ k => f s k) S.note s g ks = some (s', g')) : Run S ok s' g' :=
  h.follow_mem (fun k hk s g s' hs => ⟨hok k hk s g, hf s k s' hs⟩) hks

end Dkftpbench.Watch
