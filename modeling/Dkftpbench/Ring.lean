import Mathlib.Data.List.Chain
import Mathlib.Logic.Function.Basic

/-!
# Circular lists through two links

Each member of a ring tells the member after it and the one before it. A ring is written
as the list of its members from some member on. One is taken out by linking its two
neighbours, and one is put in between the last and the first.
-/
namespace Dkftpbench
variable {ι : Type*} {next prev next' prev' : ι → ι} {x y : ι} {l l₁ l₂ : List ι}

/-- The second is after the first. -/
def Linked (next prev : ι → ι) (x y : ι) : Prop := next x = y ∧ prev y = x

structure Ring (next prev : ι → ι) (l : List ι) : Prop where
  chain : l.IsChain (Linked next prev)
  closed : ∀ x ∈ l.getLast?, ∀ y ∈ l.head?, Linked next prev x y

namespace Ring

theorem nil : Ring next prev [] := ⟨.nil, nofun⟩

theorem congr (h : Ring next prev l) (hsame : ∀ x ∈ l, next' x = next x ∧ prev' x = prev x) :
    Ring next' prev' l where
  chain := by
    apply h.chain.imp_of_mem_imp
    intro a b ha hb hab
    exact ⟨(hsame a ha).1.trans hab.1, (hsame b hb).2.trans hab.2⟩
  closed a ha b hb := by
    have hab := h.closed a ha b hb
    exact ⟨(hsame a (List.mem_of_getLast? ha)).1.trans hab.1, (hsame b (List.mem_of_head? hb)).2.trans hab.2⟩

/-- The same ring from another member on. -/
theorem swap (h : Ring next prev (l₁ ++ l₂)) : Ring next prev (l₂ ++ l₁) := by
  cases l₁ with
  | nil => rwa [List.append_nil]
  | cons a l₁ =>
      cases l₂ with
      | nil => rwa [List.append_nil] at h
      | cons b l₂ =>
          obtain ⟨h₁, h₂, h₁₂⟩ := List.isChain_append.1 h.chain
          constructor
          · apply h₂.append h₁
            intro x hx y hy
            apply h.closed x _ y hy
            rw [List.getLast?_append, hx]
            rfl
          · intro x hx y hy
            apply h₁₂ x _ y hy
            rw [List.getLast?_append] at hx
            cases hlast : (a :: l₁).getLast? with
            | none => simp at hlast
            | some z =>
                rw [hlast] at hx
                exact hx

/-- A member is followed by the next one, the last by the first. -/
theorem linked (h : Ring next prev (l₁ ++ x :: l₂)) (hy : y ∈ (l₂ ++ (l₁ ++ [x])).head?) :
    Linked next prev x y := by
  have hfirst : Ring next prev (x :: l₂ ++ l₁) := h.swap
  have hlast : Ring next prev ((l₂ ++ l₁) ++ [x]) := Ring.swap hfirst
  apply hlast.closed x (by simp) y
  rwa [List.append_assoc]

/-- The first comes after the last. -/
theorem prev_eq (h : Ring next prev (x :: l)) : prev x = (x :: l).getLast (List.cons_ne_nil x l) :=
  (h.closed _ (List.getLast?_eq_some_getLast _) x rfl).2

section
variable [DecidableEq ι]

/-- The neighbours of the first member are linked, and it is no more in the ring. -/
theorem unlink (h : Ring next prev (x :: l)) (hx : x ∉ l) (hne : l ≠ []) :
    Ring (Function.update next (prev x) (next x)) (Function.update prev (next x) (prev x)) l := by
  obtain ⟨y, m, hl⟩ := List.exists_cons_of_ne_nil hne
  have hy : y ∈ l.head? := by
    rw [hl]
    rfl
  obtain ⟨z, hz⟩ : ∃ z, z ∈ l.getLast? := ⟨l.getLast hne, List.getLast?_eq_some_getLast hne⟩
  have hz' : z ∈ (x :: l).getLast? := by
    rw [List.getLast?_cons, hz]
    rfl
  have hxy : Linked next prev x y := (List.isChain_cons.1 h.chain).1 y hy
  have hzx : Linked next prev z x := h.closed z hz' x rfl
  rw [hxy.1, hzx.2]
  constructor
  · apply (List.isChain_cons.1 h.chain).2.imp_of_mem_imp
    intro a b ha hb hab
    have haz : a ≠ z := by
      intro heq
      rw [heq] at hab
      exact hx (hab.1.symm.trans hzx.1 ▸ hb)
    have hby : b ≠ y := by
      intro heq
      rw [heq] at hab
      exact hx (hab.2.symm.trans hxy.2 ▸ ha)
    exact ⟨(Function.update_of_ne haz _ _).trans hab.1, (Function.update_of_ne hby _ _).trans hab.2⟩
  · intro a ha b hb
    rw [hz] at ha
    rw [hy] at hb
    cases ha
    cases hb
    exact ⟨Function.update_self _ _ _, Function.update_self _ _ _⟩

/-- A new member goes between the last and the first. -/
theorem link (h : Ring next prev (y :: l)) (hy : y ∉ l) (hx : x ∉ y :: l) :
    Ring (Function.update (Function.update next x y) (prev y) x)
      (Function.update (Function.update prev x (prev y)) y x) (y :: l ++ [x]) := by
  obtain ⟨z, hz⟩ : ∃ z, z ∈ (y :: l).getLast? := ⟨_, List.getLast?_eq_some_getLast (by simp)⟩
  have hzy : Linked next prev z y := h.closed z hz y rfl
  have hzx : z ≠ x := fun heq => hx (heq ▸ List.mem_of_getLast? hz)
  have hyx : y ≠ x := fun heq => hx (heq ▸ List.mem_cons_self ..)
  rw [hzy.2]
  constructor
  · apply List.IsChain.append
    · apply h.chain.imp_of_mem_tail_imp
      intro a b ha hb hab
      have hax : a ≠ x := fun heq => hx (heq ▸ ha)
      have hbx : b ≠ x := fun heq => hx (heq ▸ List.mem_of_mem_tail hb)
      have hby : b ≠ y := fun heq => hy (heq ▸ hb)
      have haz : a ≠ z := by
        intro heq
        rw [heq] at hab
        exact hby (hab.1.symm.trans hzy.1)
      constructor
      · rw [Function.update_of_ne haz, Function.update_of_ne hax]
        exact hab.1
      · rw [Function.update_of_ne hby, Function.update_of_ne hbx]
        exact hab.2
    · exact .singleton x
    · intro a ha b hb
      rw [hz] at ha
      cases ha
      cases hb
      constructor
      · rw [Function.update_self]
      · rw [Function.update_of_ne (Ne.symm hyx), Function.update_self]
  · intro a ha b hb
    rw [List.getLast?_append] at ha
    have hax : x = a := Option.some.inj ha
    have hby : y = b := Option.some.inj hb
    rw [← hax, ← hby]
    constructor
    · rw [Function.update_of_ne (Ne.symm hzx), Function.update_self]
    · rw [Function.update_self]

end
end Ring
end Dkftpbench
