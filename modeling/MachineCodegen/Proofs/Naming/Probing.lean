import Mathlib.Order.Interval.Finset.Nat
import MachineCodegen.Proofs.Naming.Uniqueness
set_option autoImplicit false

/-!
# The search for a free name (SPEC §4.2)

A base that is taken is tried with one number after another until a form of it is free, and so is a
temporary from the number of its counter on.  Nothing in the search itself says that it ends, or that
its numbers stay within a machine word.  It does, as every probe but the last meets another name that
is taken: different numbers give different names, and there are only so many.

The search is told as it goes, probe by probe, and what a base or a hint gets is the first candidate
that it finds free.
-/

namespace MachineCodegen.Naming

open MachineCodegen.Model (DeclId)

/-! ## Probes -/

/-- From a number on, a search for a free candidate ends at a number that it finds, after some
probes.  It holds its numbers in 32 bits. -/
inductive Probing (used : List String) (candidate : Nat → String) : Nat → Nat → Nat → Prop where
  /-- A free candidate ends the search. -/
  | free {n : Nat} (hword : n < 2 ^ 32) (hfree : candidate n ∉ used) : Probing used candidate n n 1
  /-- After one that is taken comes the next number. -/
  | taken {n found probes : Nat} (hword : n < 2 ^ 32) (hused : candidate n ∈ used)
      (hrest : Probing used candidate (n + 1) found probes) :
      Probing used candidate n found (probes + 1)

section

variable {used : List String} {candidate : Nat → String} {n found : Nat}

/-- A search over taken candidates ends at the free one after them. -/
theorem probing_of_taken {k : Nat} (hword : n + k < 2 ^ 32)
    (htaken : ∀ i, n ≤ i → i < n + k → candidate i ∈ used) (hfree : candidate (n + k) ∉ used) :
    Probing used candidate n (n + k) (k + 1) := by
  induction k generalizing n with
  | zero => exact .free hword hfree
  | succ k ih =>
      have hnext : n + (k + 1) = n + 1 + k := by omega
      rw [hnext] at hword htaken hfree ⊢
      have hused : candidate n ∈ used := htaken n (Nat.le_refl n) (by omega)
      exact .taken (by omega) hused (ih hword (fun i hi => htaken i (by omega)) hfree)

theorem mem_used_of_isLeast (hleast : IsLeast {i | n ≤ i ∧ candidate i ∉ used} found) {i : Nat}
    (hi : n ≤ i) (hlt : i < found) : candidate i ∈ used := by
  by_contra hfree
  exact Nat.not_lt.mpr (hleast.2 ⟨hi, hfree⟩) hlt

/-- The candidates before the first free one are different names that are taken. -/
theorem sub_le_card (hinj : Function.Injective candidate)
    (hleast : IsLeast {i | n ≤ i ∧ candidate i ∉ used} found) :
    found - n ≤ used.toFinset.card := by
  rw [← Nat.card_Ico]
  refine Finset.card_le_card_of_injOn candidate (fun i hi => ?_) hinj.injOn
  obtain ⟨hlow, hhigh⟩ := Finset.mem_Ico.mp hi
  exact List.mem_toFinset.mpr (mem_used_of_isLeast hleast hlow hhigh)

/-- The search ends at the least number that is free, after at most one probe more than there are
names. -/
theorem exists_probing (hinj : Function.Injective candidate)
    (hleast : IsLeast {i | n ≤ i ∧ candidate i ∉ used} found) (hword : found < 2 ^ 32) :
    ∃ probes, Probing used candidate n found probes ∧ probes ≤ used.toFinset.card + 1 := by
  have hcard := sub_le_card hinj hleast
  obtain ⟨k, rfl⟩ := Nat.exists_eq_add_of_le hleast.1.1
  have htaken : ∀ i, n ≤ i → i < n + k → candidate i ∈ used :=
    fun i => mem_used_of_isLeast hleast
  exact ⟨k + 1, probing_of_taken hword htaken hleast.1.2, by omega⟩

/-- With as many numbers to try as there are names, the least free one is found. -/
theorem isLeast_firstFree (hinj : Function.Injective candidate) (n : Nat) :
    IsLeast {i | n ≤ i ∧ candidate i ∉ used}
      (Names.firstFree used candidate used.length n) := by
  refine ⟨⟨Names.firstFree_ge used candidate used.length n,
    Names.firstFree_not_mem (fun _ _ h => hinj h) n⟩, ?_⟩
  rintro i ⟨hi, hfree⟩
  by_contra hlt
  exact hfree (Names.used_of_lt_firstFree hi (Nat.not_le.mp hlt))

end

/-! ## Forms of a base -/

namespace Names

/-- What is tried for a base: itself, and then its numbered forms. -/
def form (base : String) (n : Nat) : String := if n = 0 then base else numbered base n

theorem numbered_ne (base : String) (n : Nat) : numbered base n ≠ base := by
  intro heq
  have hlength := congrArg (fun s => s.toList.length) heq
  simp [numbered, String.toList_append] at hlength

theorem form_injective (base : String) : Function.Injective (form base) := by
  intro i j heq
  unfold form at heq
  split_ifs at heq with hi hj hj
  · rw [hi, hj]
  · exact absurd heq.symm (numbered_ne base j)
  · exact absurd heq (numbered_ne base i)
  · exact numbered_injective heq

/-- A base that is taken gets the first of its numbered forms that is free. -/
theorem exists_isLeast_numbered (names : Names) {base : String} (h : base ∈ names.used) :
    ∃ n, IsLeast {i | 1 ≤ i ∧ numbered base i ∉ names.used} n ∧
      names.freeName base = numbered base n := by
  have hinj : Function.Injective (numbered base) := fun _ _ => numbered_injective
  refine ⟨_, isLeast_firstFree hinj 1, ?_⟩
  rw [freeName, if_pos (List.contains_iff_mem.mpr h)]

theorem freeName_of_not_mem {names : Names} {base : String} (h : base ∉ names.used) :
    names.freeName base = base := by
  rw [freeName, if_neg (mt List.contains_iff_mem.mp h)]

/-- A base gets the first of its forms that is free. -/
theorem exists_isLeast_form (names : Names) (base : String) :
    ∃ n, IsLeast {i | 0 ≤ i ∧ form base i ∉ names.used} n ∧ names.freeName base = form base n := by
  by_cases hbase : base ∈ names.used
  · obtain ⟨n, ⟨⟨hpos, hfree⟩, hmin⟩, hname⟩ := names.exists_isLeast_numbered hbase
    have hform : ∀ i, 1 ≤ i → form base i = numbered base i :=
      fun i hi => if_neg (Nat.ne_of_gt hi)
    refine ⟨n, ⟨⟨Nat.zero_le n, by rwa [hform n hpos]⟩, ?_⟩, by rw [hname, hform n hpos]⟩
    rintro i ⟨-, hi⟩
    rcases Nat.eq_zero_or_pos i with rfl | hi'
    · exact absurd hbase hi
    · rw [hform i hi'] at hi
      exact hmin ⟨hi', hi⟩
  · exact ⟨0, ⟨⟨Nat.le_refl 0, hbase⟩, fun i _ => Nat.zero_le i⟩, freeName_of_not_mem hbase⟩

end Names

/-! ## Claimed names -/

/-- A base is given a name, and the name is taken. -/
structure Claims (names : Names) (base name : String) (next : Names) : Prop where
  /-- The base itself, if it is free. -/
  of_free : base ∉ names.used → name = base
  /-- Else its form with the least number from 1 on that is free. -/
  of_used : base ∈ names.used →
    ∃ n, IsLeast {i | 1 ≤ i ∧ Names.numbered base i ∉ names.used} n ∧ name = Names.numbered base n
  /-- The search ends, with at most one probe more than there are names. -/
  ends : ∃ n probes, Probing names.used (Names.form base) 0 n probes ∧ name = Names.form base n ∧
    probes ≤ names.used.toFinset.card + 1
  /-- This name was free, and no other is taken. -/
  taken : name ∉ names.used ∧ next.used = name :: names.used

/-- As long as there are fewer names than numbers to try, what a base gets is found. -/
theorem claims_freeName {names next : Names} (hcard : names.used.toFinset.card < 2 ^ 32 - 1)
    {base : String} (hnext : next.used = names.freeName base :: names.used) :
    Claims names base (names.freeName base) next where
  of_free := Names.freeName_of_not_mem
  of_used := names.exists_isLeast_numbered
  ends := by
    obtain ⟨n, hleast, hname⟩ := names.exists_isLeast_form base
    have hinj := Names.form_injective base
    have hbound := sub_le_card hinj hleast
    obtain ⟨probes, hprobing, hprobes⟩ := exists_probing hinj hleast (by omega)
    exact ⟨n, probes, hprobing, hname, hprobes⟩
  taken := ⟨names.freeName_not_mem base, hnext⟩

/-! ## Numbers of temporaries -/

/-- A hint is given the temporary with the first number from the counter on that makes a free name,
and the counter goes on after it. -/
theorem exists_isLeast_temporary (names : Names) (hint : String) :
    ∃ c, IsLeast {n | names.counter ≤ n ∧ Names.temporaryName hint n ∉ names.used} c ∧
      names.temporary hint = (Names.temporaryName hint c,
        { names with used := Names.temporaryName hint c :: names.used, counter := c + 1 }) := by
  have hinj : Function.Injective (Names.temporaryName hint) :=
    fun _ _ => Names.temporaryName_injective
  exact ⟨_, isLeast_firstFree hinj names.counter, rfl⟩

/-- The call takes a temporary. -/
def Call.isTemporary : Call → Bool
  | .temporary _ => true
  | .nameFor _ _ | .lookup _ | .derive _ _ _ _ => false

/-- What was given out is a temporary with this number. -/
def Issued.HasNumber (a : Issued) (n : Nat) : Prop :=
  ∃ hint, a.call = .temporary hint ∧ a.name = Names.temporaryName hint n

/-- Only temporaries move the counter. -/
theorem counter_run {names : Names} {call : Call} (h : call.isTemporary = false) :
    (call.run names).2.counter = names.counter := by
  cases call with
  | nameFor id source =>
      change (names.nameFor id source).2.counter = names.counter
      unfold Names.nameFor
      split <;> rfl
  | lookup _ => rfl
  | derive id base before after =>
      change (names.derive id base before after).2.counter = names.counter
      unfold Names.derive
      dsimp only
      split <;> rfl
  | temporary _ => cases h

/-- Temporaries are numbered from the counter on, each higher than those before. -/
theorem exists_numbers (names : Names) (position : Nat) (calls : List Call) :
    ∃ numbers : List Nat, numbers.Pairwise (· < ·) ∧ (∀ n ∈ numbers, names.counter ≤ n) ∧
      List.Forall₂ Issued.HasNumber
        ((issued names position calls).filter (·.call.isTemporary)) numbers := by
  induction calls generalizing names position with
  | nil => exact ⟨[], .nil, nofun, .nil⟩
  | cons call rest ih =>
      obtain ⟨numbers, hpairwise, hfrom, hnumbers⟩ := ih (call.run names).2 (position + 1)
      cases hkind : call.isTemporary with
      | false =>
          have hskip : (issued names position (call :: rest)).filter (·.call.isTemporary) =
              (issued (call.run names).2 (position + 1) rest).filter (·.call.isTemporary) := by
            simp [issued, hkind]
          rw [counter_run hkind] at hfrom
          exact ⟨numbers, hpairwise, hfrom, hskip ▸ hnumbers⟩
      | true =>
          cases call with
          | nameFor _ _ | lookup _ | derive _ _ _ _ => cases hkind
          | temporary hint =>
              obtain ⟨c, hleast, htaken⟩ := exists_isLeast_temporary names hint
              have hrun : (Call.temporary hint).run names =
                  (some (names.temporary hint).1, (names.temporary hint).2) := rfl
              rw [hrun, htaken] at hfrom hnumbers
              have hissued : issued names position (.temporary hint :: rest) =
                  ⟨.temporary hint, .temporary position, Names.temporaryName hint c⟩ ::
                    issued (names.temporary hint).2 (position + 1) rest := by
                rw [issued, hrun, htaken]
                rfl
              refine ⟨c :: numbers, List.pairwise_cons.mpr ⟨fun n hn => hfrom n hn, hpairwise⟩,
                List.forall_mem_cons.mpr ⟨hleast.1.1, fun n hn => ?_⟩, ?_⟩
              · have hlow := hleast.1.1
                have hhigh : c + 1 ≤ n := hfrom n hn
                omega
              · rw [hissued, htaken]
                exact .cons ⟨hint, rfl, rfl⟩ hnumbers

/-! ## What searches find -/

/-- As long as there are fewer names than numbers to try, the search for a base ends and finds the
base itself or its first numbered form that is free; the names of declarations and further names are
found in this way.  As long as the counter stays within its 32 bits, the search for a temporary ends
at the first number from the counter on that makes a free name, and the counter goes on after it; so
the numbers of temporaries go up, whatever else is called between. -/
theorem search_finds_least (names : Names) :
    (names.used.toFinset.card < 2 ^ 32 - 1 →
      (∀ base, Claims names base (names.freeName base) (names.take (names.freeName base))) ∧
      (∀ id source, names.lookup id = none →
        Claims names (sanitize source) (names.nameFor id source).1 (names.nameFor id source).2) ∧
      ∀ id base before after, names.derived.lookup (id, Names.affixes before after) = none →
        Claims names (before ++ base ++ after) (names.derive id base before after).1
          (names.derive id base before after).2) ∧
    (∀ hint, (names.temporary hint).2.counter < 2 ^ 32 →
      ∃ c probes, IsLeast {n | names.counter ≤ n ∧ Names.temporaryName hint n ∉ names.used} c ∧
        Probing names.used (Names.temporaryName hint) names.counter c probes ∧
        probes ≤ names.used.toFinset.card + 1 ∧
        names.temporary hint = (Names.temporaryName hint c,
          { names with used := Names.temporaryName hint c :: names.used, counter := c + 1 })) ∧
    ∀ position calls, ∃ numbers : List Nat, numbers.Pairwise (· < ·) ∧
      (∀ n ∈ numbers, names.counter ≤ n) ∧
      List.Forall₂ Issued.HasNumber
        ((issued names position calls).filter (·.call.isTemporary)) numbers := by
  refine ⟨fun hcard => ⟨fun base => ?_, fun id source hnone => ?_,
    fun id base before after hnone => ?_⟩, fun hint hword => ?_, exists_numbers names⟩
  · refine claims_freeName hcard ?_
    rw [Names.take, if_neg (mt List.contains_iff_mem.mp (names.freeName_not_mem base))]
  · simp only [Names.nameFor, hnone]
    exact claims_freeName hcard rfl
  · rw [Names.derive_of_none hnone]
    exact claims_freeName hcard rfl
  · obtain ⟨c, hleast, htaken⟩ := exists_isLeast_temporary names hint
    rw [htaken] at hword
    have hinj : Function.Injective (Names.temporaryName hint) :=
      fun _ _ => Names.temporaryName_injective
    obtain ⟨probes, hprobing, hprobes⟩ := exists_probing hinj hleast (Nat.lt_of_succ_lt hword)
    exact ⟨c, probes, hleast, hprobing, hprobes, htaken⟩

/-- Names with gaps in the numbers that are taken, for a base, for a declaration, for a further name
and for a hint. -/
theorem search_finds_least_gaps :
    let names : Names := { used := ["x", "x_1", "x_3", "PGEN_x_4", "PGEN_x_5"], counter := 4 }
    names.used.toFinset.card < 2 ^ 32 - 1 ∧ names.lookup ⟨7⟩ = none ∧
      names.derived.lookup (⟨7⟩, Names.affixes "" "_1") = none ∧
      (names.temporary "x").2.counter < 2 ^ 32 ∧
      Claims names "x" "x_2" (names.take "x_2") ∧ Claims names "x" "x_2" (names.nameFor ⟨7⟩ "x").2 ∧
      Claims names "x_1" "x_1_1" (names.derive ⟨7⟩ "x" "" "_1").2 ∧
      ∃ c probes, Probing names.used (Names.temporaryName "x") 4 c probes ∧ probes ≤ 6 ∧
        Names.temporaryName "x" c = "PGEN_x_6" := by
  intro names
  have hcard : names.used.toFinset.card = 5 := by decide +kernel
  have hbound : names.used.toFinset.card < 2 ^ 32 - 1 := by rw [hcard]; decide
  have hlookup : names.lookup ⟨7⟩ = none := rfl
  have hderived : names.derived.lookup (⟨7⟩, Names.affixes "" "_1") = none := rfl
  have hword : (names.temporary "x").2.counter < 2 ^ 32 := by decide +kernel
  obtain ⟨hclaims, htemporary, -⟩ := search_finds_least names
  obtain ⟨hbase, hname, hfurther⟩ := hclaims hbound
  obtain ⟨c, probes, -, hprobing, hprobes, htaken⟩ := htemporary "x" hword
  have hx : names.freeName "x" = "x_2" := by decide +kernel
  have hown : sanitize "x" = "x" ∧ (names.nameFor ⟨7⟩ "x").1 = "x_2" := by decide +kernel
  have hmade : "" ++ "x" ++ "_1" = "x_1" ∧ (names.derive ⟨7⟩ "x" "" "_1").1 = "x_1_1" := by
    decide +kernel
  have hgiven : (names.temporary "x").1 = "PGEN_x_6" := by decide +kernel
  refine ⟨hbound, hlookup, hderived, hword, hx ▸ hbase "x", ?_, ?_,
    c, probes, hprobing, by omega, ?_⟩
  · have h := hname ⟨7⟩ "x" hlookup
    rwa [hown.1, hown.2] at h
  · have h := hfurther ⟨7⟩ "x" "" "_1" hderived
    rwa [hmade.1, hmade.2] at h
  · rw [← hgiven, htaken]

end MachineCodegen.Naming
