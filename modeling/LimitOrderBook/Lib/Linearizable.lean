import LimitOrderBook.Lib.Schedule

/-!
Linearizability. Callers of a shared object call it and return from it at any time; the
object answers as if each call took effect at one moment in between.
-/

set_option autoImplicit false

namespace SharedObject
open Checked Schedule

variable {σ ι Op Ret : Type}

inductive Event (ι Op Ret : Type) where
  | call (i : ι) (op : Op)
  | ret (i : ι) (r : Ret)

structure Effect (ι Op Ret : Type) where
  caller : ι
  op : Op
  ret : Ret

/-- The answers a sequential object may give, with what becomes of it. -/
abbrev Object (σ Op Ret : Type) := σ → Op → Ret → σ → Prop

inductive Legal (spec : Object σ Op Ret) (s₀ : σ) : List (Effect ι Op Ret) → σ → Prop where
  | nil : Legal spec s₀ [] s₀
  | snoc {effects : List (Effect ι Op Ret)} {s s' : σ} (i : ι) {op : Op} {r : Ret}
      (h : Legal spec s₀ effects s) (hspec : spec s op r s') :
      Legal spec s₀ (effects ++ [⟨i, op, r⟩]) s'

section

variable [DecidableEq ι] (i : ι)

def calls (hist : List (Event ι Op Ret)) : List Op :=
  hist.filterMap fun
    | .call j op => if j = i then some op else none
    | .ret _ _ => none

def returns (hist : List (Event ι Op Ret)) : List Ret :=
  hist.filterMap fun
    | .call _ _ => none
    | .ret j r => if j = i then some r else none

def own (effects : List (Effect ι Op Ret)) : List (Effect ι Op Ret) :=
  effects.filter fun e => e.caller = i

end

variable [DecidableEq ι]

/-- What has taken effect was called, and what has returned has taken effect, with the same
answer. -/
def Fits (effects : List (Effect ι Op Ret)) (hist : List (Event ι Op Ret)) : Prop :=
  ∀ i, (own i effects).map Effect.op <+: calls i hist ∧
    returns i hist <+: (own i effects).map Effect.ret

/-- Up to every moment of the history, the effects up to some moment fit it. In particular
a call that has returned takes effect before any call made later does. -/
def Explains (effects : List (Effect ι Op Ret)) (hist : List (Event ι Op Ret)) : Prop :=
  ∀ past, past <+: hist → ∃ done, done <+: effects ∧ Fits done past

/-- Some sequential run of the object explains the history. -/
def Linearizable (spec : Object σ Op Ret) (s₀ : σ) (hist : List (Event ι Op Ret)) : Prop :=
  ∃ effects s, Legal spec s₀ effects s ∧ Explains effects hist

inductive Phase (Op Ret : Type) where
  | idle
  | called (op : Op)
  | effected (r : Ret)

/-- The phase of each caller against the effects and the history. -/
def Tracks (phase : ι → Phase Op Ret) (effects : List (Effect ι Op Ret))
    (hist : List (Event ι Op Ret)) : Prop :=
  ∀ i, match phase i with
    | .idle => calls i hist = (own i effects).map Effect.op ∧
        (own i effects).map Effect.ret = returns i hist
    | .called op => calls i hist = (own i effects).map Effect.op ++ [op] ∧
        (own i effects).map Effect.ret = returns i hist
    | .effected r => calls i hist = (own i effects).map Effect.op ∧
        (own i effects).map Effect.ret = returns i hist ++ [r]

namespace Tracks

variable {phase : ι → Phase Op Ret} {effects : List (Effect ι Op Ret)}
  {hist : List (Event ι Op Ret)}

theorem start : Tracks (fun _ : ι => (.idle : Phase Op Ret)) [] [] := fun _ => ⟨rfl, rfl⟩

theorem fits (h : Tracks phase effects hist) : Fits effects hist := by
  intro i
  have hi := h i
  cases hp : phase i with
  | idle =>
    simp only [hp] at hi
    exact ⟨hi.1 ▸ List.prefix_rfl, hi.2 ▸ List.prefix_rfl⟩
  | called op =>
    simp only [hp] at hi
    exact ⟨hi.1 ▸ List.prefix_append .., hi.2 ▸ List.prefix_rfl⟩
  | effected r =>
    simp only [hp] at hi
    exact ⟨hi.1 ▸ List.prefix_rfl, hi.2 ▸ List.prefix_append ..⟩

theorem call {i : ι} (h : Tracks phase effects hist) (hi : phase i = .idle) (op : Op) :
    Tracks (Function.update phase i (.called op)) effects (hist ++ [.call i op]) := by
  intro k
  have hk := h k
  by_cases he : k = i
  · subst he
    simp only [hi] at hk
    simp [calls, returns] at hk ⊢
    exact hk
  · have hne : i ≠ k := fun e => he e.symm
    simpa [Function.update_of_ne he, calls, returns, hne] using hk

theorem effect {i : ι} {op : Op} (h : Tracks phase effects hist) (hi : phase i = .called op)
    (r : Ret) :
    Tracks (Function.update phase i (.effected r)) (effects ++ [⟨i, op, r⟩]) hist := by
  intro k
  have hk := h k
  by_cases he : k = i
  · subst he
    simp only [hi] at hk
    simpa [own] using hk
  · have hne : i ≠ k := fun e => he e.symm
    simpa [Function.update_of_ne he, own, hne] using hk

theorem ret {i : ι} {r : Ret} (h : Tracks phase effects hist) (hi : phase i = .effected r) :
    Tracks (Function.update phase i .idle) effects (hist ++ [.ret i r]) := by
  intro k
  have hk := h k
  by_cases he : k = i
  · subst he
    simp only [hi] at hk
    simpa [calls, returns] using hk
  · have hne : i ≠ k := fun e => he e.symm
    simpa [Function.update_of_ne he, calls, returns, hne] using hk

end Tracks

/-- Linearization points: a run whose every step has at most one event, and effects that
keep the callers tracked, is linearizable. -/
theorem of_points {S C : Type} {step : S → C → Exec (S × List (Event ι Op Ret))}
    {spec : Object σ Op Ret} {o₀ : σ} {P : C → Prop}
    (Inv : S → List (Event ι Op Ret) → List (Effect ι Op Ret) → σ → Prop)
    (hfits : ∀ s hist effects o, Inv s hist effects o → Fits effects hist)
    (hstep : ∀ s hist effects o c s' out, P c → Inv s hist effects o →
      Legal spec o₀ effects o → step s c = .ok (s', out) → out.length ≤ 1 ∧
        ∃ more o', Legal spec o₀ (effects ++ more) o' ∧ Inv s' (hist ++ out) (effects ++ more) o')
    {s s' : S} {cs : List C} {hist : List (Event ι Op Ret)} (h₀ : Inv s [] [] o₀)
    (hP : ∀ c ∈ cs, P c) (hrun : run step s cs = .ok (s', hist)) :
    Linearizable spec o₀ hist := by
  suffices hinv : ∃ effects o, Legal spec o₀ effects o ∧ Inv s' hist effects o ∧
      Explains effects hist by
    obtain ⟨effects, o, hlegal, -, hexplains⟩ := hinv
    exact ⟨effects, o, hlegal, hexplains⟩
  induction cs using List.reverseRecOn generalizing s' hist with
  | nil =>
    cases hrun
    refine ⟨[], o₀, .nil, h₀, fun past hpast => ⟨[], List.prefix_rfl, ?_⟩⟩
    obtain rfl := List.prefix_nil.mp hpast
    exact hfits _ _ _ _ h₀
  | append_singleton cs c ih =>
    obtain ⟨s₁, out₁, out₂, hcs, hone, rfl⟩ := run_append_eq_ok.mp hrun
    obtain ⟨_, out₃, out₄, hc, hnil, rfl⟩ := run_cons_eq_ok.mp hone
    cases hnil
    rw [List.append_nil]
    obtain ⟨effects, o, hlegal, hinv, hexplains⟩ := ih (fun d hd => hP d (by simp [hd])) hcs
    obtain ⟨hlen, more, o', hlegal', hinv'⟩ :=
      hstep s₁ out₁ effects o c s' out₃ (hP c (by simp)) hinv hlegal hc
    refine ⟨effects ++ more, o', hlegal', hinv', fun past hpast => ?_⟩
    have hsplit : past <+: out₁ ∨ past = out₁ ++ out₃ := by
      rcases out₃ with _ | ⟨e, _ | ⟨e', rest⟩⟩
      · exact .inl (by simpa using hpast)
      · rcases List.prefix_concat_iff.mp hpast with rfl | hp
        · exact .inr rfl
        · exact .inl hp
      · simp at hlen
    rcases hsplit with hp | rfl
    · obtain ⟨done, hdone, hfit⟩ := hexplains past hp
      exact ⟨done, hdone.trans (List.prefix_append ..), hfit⟩
    · exact ⟨_, List.prefix_rfl, hfits _ _ _ _ hinv'⟩

end SharedObject
