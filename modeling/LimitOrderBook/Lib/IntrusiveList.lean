import Mathlib

/-!
Lists threaded through two links of their own nodes. The nodes live in a memory
the list does not own, so every statement says which links it reads.
-/

set_option autoImplicit false

namespace IntrusiveList

variable {ι : Type}

/-- Following `step` from `h` visits exactly the nodes of the list, then ends. -/
def Chain (step : ι → Option ι) : Option ι → List ι → Prop
  | h, [] => h = none
  | h, i :: L => h = some i ∧ Chain step (step i) L

/-- Both links of every node of a run that starts after `p` and ends before `n`. -/
def Segment (next prev : ι → Option ι) : Option ι → List ι → Option ι → Prop
  | _, [], _ => True
  | p, i :: L, n => prev i = p ∧ next i = L.head?.or n ∧ Segment next prev (some i) L n

structure IsList (next prev : ι → Option ι) (head tail : Option ι) (L : List ι) : Prop where
  head : head = L.head?
  tail : tail = L.getLast?
  links : Segment next prev none L none
  nodup : L.Nodup

theorem Chain.congr {step step' : ι → Option ι} {h : Option ι} {L : List ι}
    (hc : Chain step h L) (he : ∀ i ∈ L, step' i = step i) : Chain step' h L := by
  induction L generalizing h with
  | nil => exact hc
  | cons i L ih =>
    refine ⟨hc.1, ?_⟩
    rw [he i (by simp)]
    exact ih hc.2 (fun j hj => he j (by simp [hj]))

theorem Segment.congr {next prev next' prev' : ι → Option ι} {p n : Option ι} {L : List ι}
    (hs : Segment next prev p L n) (hn : ∀ i ∈ L, next' i = next i)
    (hp : ∀ i ∈ L, prev' i = prev i) : Segment next' prev' p L n := by
  induction L generalizing p with
  | nil => trivial
  | cons i L ih =>
    obtain ⟨h₁, h₂, h₃⟩ := hs
    refine ⟨?_, ?_, ih h₃ (fun j hj => hn j (by simp [hj])) (fun j hj => hp j (by simp [hj]))⟩
    · rw [hp i (by simp), h₁]
    · rw [hn i (by simp), h₂]

theorem segment_append {next prev : ι → Option ι} {p n : Option ι} {A B : List ι} :
    Segment next prev p (A ++ B) n ↔
      Segment next prev p A (B.head?.or n) ∧ Segment next prev (A.getLast?.or p) B n := by
  induction A generalizing p with
  | nil => simp [Segment]
  | cons i A ih =>
    have hl : (i :: A).getLast?.or p = A.getLast?.or (some i) := by
      cases A with
      | nil => rfl
      | cons j A =>
        rw [List.getLast?_cons_cons, List.getLast?_eq_some_getLast (by simp : j :: A ≠ [])]
        rfl
    have hh : (A ++ B).head?.or n = A.head?.or (B.head?.or n) := by
      cases A <;> simp
    simp only [List.cons_append, Segment, ih, hl, hh]
    tauto

theorem Segment.relink_next [DecidableEq ι] {next prev next' prev' : ι → Option ι}
    {p n n' : Option ι} {L : List ι} (hs : Segment next prev p L n) (hd : L.Nodup)
    (hn : ∀ i ∈ L, next' i = if L.getLast? = some i then n' else next i)
    (hp : ∀ i ∈ L, prev' i = prev i) : Segment next' prev' p L n' := by
  induction L generalizing p with
  | nil => trivial
  | cons i L ih =>
    obtain ⟨h₁, h₂, h₃⟩ := hs
    have hi := hn i (by simp)
    cases L with
    | nil => exact ⟨by rw [hp i (by simp), h₁], by simpa using hi, trivial⟩
    | cons j L =>
      rw [List.getLast?_cons_cons] at hn hi
      have hne : (j :: L).getLast? ≠ some i := by
        intro e
        exact (List.nodup_cons.mp hd).1 (List.mem_of_getLast? e)
      refine ⟨by rw [hp i (by simp), h₁], by rw [hi, if_neg hne, h₂]; rfl, ?_⟩
      exact ih h₃ (List.nodup_cons.mp hd).2 (fun k hk => hn k (by simp [hk]))
        (fun k hk => hp k (by simp [hk]))

theorem Segment.relink_prev [DecidableEq ι] {next prev next' prev' : ι → Option ι}
    {p p' n : Option ι} {L : List ι} (hs : Segment next prev p L n) (hd : L.Nodup)
    (hn : ∀ i ∈ L, next' i = next i)
    (hp : ∀ i ∈ L, prev' i = if L.head? = some i then p' else prev i) :
    Segment next' prev' p' L n := by
  cases L with
  | nil => trivial
  | cons i L =>
    obtain ⟨_, h₂, h₃⟩ := hs
    refine ⟨by simpa using hp i (by simp), by rw [hn i (by simp), h₂], ?_⟩
    refine h₃.congr (fun k hk => hn k (by simp [hk])) (fun k hk => ?_)
    have hne : i ≠ k := fun e => (List.nodup_cons.mp hd).1 (e ▸ hk)
    rw [hp k (by simp [hk])]
    simp [hne]

theorem IsList.congr {next prev next' prev' : ι → Option ι} {head tail : Option ι} {L : List ι}
    (h : IsList next prev head tail L) (hn : ∀ i ∈ L, next' i = next i)
    (hp : ∀ i ∈ L, prev' i = prev i) : IsList next' prev' head tail L :=
  ⟨h.head, h.tail, h.links.congr hn hp, h.nodup⟩

theorem isList_nil (next prev : ι → Option ι) : IsList next prev none none [] :=
  ⟨rfl, rfl, trivial, List.nodup_nil⟩

theorem IsList.head_eq_none {next prev : ι → Option ι} {head tail : Option ι} {L : List ι}
    (h : IsList next prev head tail L) : head = none ↔ L = [] := by
  rw [h.head, List.head?_eq_none_iff]

theorem IsList.tail_eq_none {next prev : ι → Option ι} {head tail : Option ι} {L : List ι}
    (h : IsList next prev head tail L) : tail = none ↔ L = [] := by
  rw [h.tail, List.getLast?_eq_none_iff]

theorem IsList.at {next prev : ι → Option ι} {head tail : Option ι} {A B : List ι} {i : ι}
    (h : IsList next prev head tail (A ++ i :: B)) :
    prev i = A.getLast? ∧ next i = B.head? := by
  obtain ⟨h₁, h₂, _⟩ := (segment_append.mp h.links).2
  exact ⟨by simpa using h₁, by simpa using h₂⟩

/-- The nodes of a list and their order determine both links of every node. -/
theorem IsList.links_unique {next prev next' prev' : ι → Option ι}
    {head tail head' tail' : Option ι} {L : List ι} (h : IsList next prev head tail L)
    (h' : IsList next' prev' head' tail' L) :
    ∀ i ∈ L, next' i = next i ∧ prev' i = prev i := by
  intro i hi
  obtain ⟨A, B, rfl⟩ := List.append_of_mem hi
  obtain ⟨hp, hn⟩ := h.at
  obtain ⟨hp', hn'⟩ := h'.at
  exact ⟨hn'.trans hn.symm, hp'.trans hp.symm⟩

section Update

variable [DecidableEq ι] {next prev next' prev' : ι → Option ι} {head tail : Option ι}

theorem IsList.push_back {L : List ι} {i : ι} (h : IsList next prev head tail L)
    (next' prev' : ι → Option ι) (hi : i ∉ L)
    (hnext : ∀ j, next' j = if tail = some j then some i else if j = i then none else next j)
    (hprev : ∀ j, prev' j = if j = i then tail else prev j) :
    IsList next' prev' ((L ++ [i]).head?) (some i) (L ++ [i]) := by
  have hne : ∀ j ∈ L, j ≠ i := fun j hj e => hi (e ▸ hj)
  refine ⟨rfl, by simp, ?_, ?_⟩
  · refine segment_append.mpr ⟨?_, ?_, ?_, trivial⟩
    · refine h.links.relink_next h.nodup (fun j hj => ?_) (fun j hj => ?_)
      · rw [hnext j, h.tail]
        simp [hne j hj]
      · rw [hprev j, if_neg (hne j hj)]
    · rw [hprev i, if_pos rfl, h.tail]
      simp
    · have ht : tail ≠ some i := by
        rw [h.tail]
        exact fun e => hi (List.mem_of_getLast? e)
      rw [hnext i, if_neg ht, if_pos rfl]
      rfl
  · exact List.nodup_append.mpr ⟨h.nodup, by simp, by simpa using fun j hj => hne j hj⟩

/-- Unlinking a member joins its two neighbours. -/
theorem IsList.unlink {A B : List ι} {i : ι} (h : IsList next prev head tail (A ++ i :: B))
    (next' prev' : ι → Option ι)
    (hnext : ∀ j, next' j = if j = i then none else if prev i = some j then next i else next j)
    (hprev : ∀ j, prev' j = if j = i then none else if next i = some j then prev i else prev j) :
    IsList next' prev' (if prev i = none then next i else head)
      (if next i = none then prev i else tail) (A ++ B) := by
  obtain ⟨hp, hn⟩ := h.at
  have hd := List.nodup_append.mp h.nodup
  have hdB := List.nodup_cons.mp hd.2.1
  have hA : ∀ j ∈ A, j ≠ i := fun j hj => hd.2.2 j hj i (by simp)
  have hB : ∀ j ∈ B, j ≠ i := fun j hj e => hdB.1 (e ▸ hj)
  have hAB : ∀ j ∈ A, j ∉ B := fun j hj hb => hd.2.2 j hj j (by simp [hb]) rfl
  obtain ⟨hsA, _, _, hsB⟩ := segment_append.mp h.links
  refine ⟨?_, ?_, ?_, ?_⟩
  · rw [hp, hn, h.head]
    cases A <;> simp
  · rw [hp, hn, h.tail]
    cases B using List.reverseRecOn with
    | nil => simp
    | append_singleton B b _ => cases B <;> simp [List.getLast?_append]
  · refine segment_append.mpr ⟨?_, ?_⟩
    · refine hsA.relink_next hd.1 (fun j hj => ?_) (fun j hj => ?_)
      · rw [hnext j, if_neg (hA j hj), hp, hn]
        simp
      · rw [hprev j, if_neg (hA j hj), if_neg]
        rw [hn]
        exact fun e => hAB j hj (List.mem_of_head? e)
    · refine hsB.relink_prev hdB.2 (fun j hj => ?_) (fun j hj => ?_)
      · rw [hnext j, if_neg (hB j hj), if_neg]
        rw [hp]
        exact fun e => hAB j (List.mem_of_getLast? e) hj
      · rw [hprev j, if_neg (hB j hj), hp, hn]
        simp
  · refine List.nodup_append.mpr ⟨hd.1, hdB.2, fun a ha b hb => ?_⟩
    exact fun e => hAB a ha (e ▸ hb)

end Update

theorem Segment.chain_next {next prev : ι → Option ι} {p : Option ι} {L : List ι}
    (hs : Segment next prev p L none) : Chain next L.head? L := by
  induction L generalizing p with
  | nil => rfl
  | cons i L ih =>
    obtain ⟨_, h₂, h₃⟩ := hs
    refine ⟨rfl, ?_⟩
    rw [h₂, Option.or_none]
    exact ih h₃

theorem Segment.chain_prev {next prev : ι → Option ι} {n : Option ι} {L : List ι}
    (hs : Segment next prev none L n) : Chain prev L.getLast? L.reverse := by
  induction L using List.reverseRecOn generalizing n with
  | nil => rfl
  | append_singleton L i ih =>
    obtain ⟨h₁, h₂, _⟩ := segment_append.mp hs
    rw [List.getLast?_append_of_ne_nil _ (by simp), List.reverse_append]
    refine ⟨rfl, ?_⟩
    rw [h₂, Option.or_none]
    exact ih h₁

theorem IsList.chains {next prev : ι → Option ι} {head tail : Option ι} {L : List ι}
    (h : IsList next prev head tail L) :
    Chain next head L ∧ Chain prev tail L.reverse := by
  rw [h.head, h.tail]
  exact ⟨h.links.chain_next, h.links.chain_prev⟩

/-! Walks of links that nobody vouches for. -/

section Walk

variable {step next prev : ι → Option ι} {h head tail : Option ι} {L M A B : List ι} {i : ι}

/-- The nodes found behind `h`, up to a limit. -/
def walk (step : ι → Option ι) : Nat → Option ι → List ι
  | fuel + 1, some i => i :: walk step fuel (step i)
  | _, _ => []

theorem Chain.head_eq (hL : Chain step h L) : h = L.head? := by
  cases L with
  | nil => exact hL
  | cons i L => exact hL.1

theorem Chain.unique (hL : Chain step h L) (hM : Chain step h M) : L = M := by
  induction L generalizing h M with
  | nil =>
    have hhead := hM.head_eq
    rw [show h = none from hL] at hhead
    exact (List.head?_eq_none_iff.mp hhead.symm).symm
  | cons i L ih =>
    obtain ⟨rfl, hL⟩ := hL
    cases M with
    | nil => cases hM
    | cons j M =>
      obtain ⟨hij, hM⟩ := hM
      cases hij
      rw [ih hL hM]

theorem Chain.behind (hL : Chain step h (A ++ i :: B)) : Chain step (step i) B := by
  induction A generalizing h with
  | nil => exact hL.2
  | cons a A ih => exact ih hL.2

theorem Chain.nodup (hL : Chain step h L) : L.Nodup := by
  induction L generalizing h with
  | nil => exact List.nodup_nil
  | cons i L ih =>
    refine List.nodup_cons.mpr ⟨fun hi => ?_, ih hL.2⟩
    obtain ⟨A, B, rfl⟩ := List.append_of_mem hi
    have hlen := congrArg List.length (hL.2.unique hL.2.behind)
    simp only [List.length_append, List.length_cons] at hlen
    omega

theorem Chain.walk_eq {fuel : Nat} (hL : Chain step h L) (hf : L.length ≤ fuel) :
    walk step fuel h = L := by
  induction L generalizing h fuel with
  | nil =>
    rw [show h = none from hL]
    cases fuel <;> rfl
  | cons i L ih =>
    obtain ⟨rfl, hL⟩ := hL
    cases fuel with
    | zero => simp at hf
    | succ fuel => rw [walk, ih hL (by simpa using hf)]

theorem Segment.of_links {p n : Option ι}
    (hlinks : ∀ A i B, L = A ++ i :: B → prev i = A.getLast?.or p ∧ next i = B.head?.or n) :
    Segment next prev p L n := by
  induction L generalizing p with
  | nil => trivial
  | cons i L ih =>
    obtain ⟨hprev, hnext⟩ := hlinks [] i L rfl
    refine ⟨hprev, hnext, ih fun A j B he => ?_⟩
    obtain ⟨hprev, hnext⟩ := hlinks (i :: A) j B (by rw [he]; rfl)
    refine ⟨?_, hnext⟩
    rw [hprev]
    cases A with
    | nil => rfl
    | cons a A =>
      rw [List.getLast?_cons_cons, List.getLast?_eq_some_getLast (by simp)]
      rfl

/-- Two walks that see one list, in opposite orders, find it properly linked. -/
theorem IsList.of_chains (hnext : Chain next head L) (hprev : Chain prev tail L.reverse) :
    IsList next prev head tail L where
  head := hnext.head_eq
  tail := by rw [hprev.head_eq, List.head?_reverse]
  links := by
    refine Segment.of_links fun A i B he => ?_
    subst he
    rw [List.reverse_append, List.reverse_cons, List.append_assoc] at hprev
    rw [Option.or_none, Option.or_none, hnext.behind.head_eq]
    refine ⟨?_, rfl⟩
    have hback : Chain prev (prev i) A.reverse := hprev.behind
    rw [hback.head_eq, List.head?_reverse]
  nodup := hnext.nodup

end Walk

end IntrusiveList
