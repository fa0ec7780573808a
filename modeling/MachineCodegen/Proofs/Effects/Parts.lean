import Mathlib.Data.List.Basic
import MachineCodegen.Proofs.Execution.Syntax
set_option autoImplicit false

/-!
# Parts of generated code (SPEC §4.7)

An expression of generated code is put together from its parts.  Their texts stand in its text, and
what it does is what they do, besides what it does itself.
-/

namespace MachineCodegen.Target

/-! ## Texts -/

/-- A text stands in another. -/
def Within (part whole : String) : Prop := ∃ before after, whole = before ++ part ++ after

namespace Within

variable {part whole : String}

theorem refl (text : String) : Within text text :=
  ⟨"", "", by rw [String.append_empty, String.empty_append]⟩

theorem trans {middle : String} (h : Within part middle) (h' : Within middle whole) :
    Within part whole := by
  obtain ⟨before, after, rfl⟩ := h
  obtain ⟨before', after', rfl⟩ := h'
  exact ⟨before' ++ before, after ++ after', by simp only [String.append_assoc]⟩

theorem append_left (h : Within part whole) (before : String) : Within part (before ++ whole) := by
  obtain ⟨before', after, rfl⟩ := h
  exact ⟨before ++ before', after, by simp only [String.append_assoc]⟩

theorem append_right (h : Within part whole) (after : String) : Within part (whole ++ after) := by
  obtain ⟨before, after', rfl⟩ := h
  exact ⟨before, after' ++ after, by simp only [String.append_assoc]⟩

/-- Each of several items stands in them all, with commas between them. -/
theorem commas {items : List String} (h : part ∈ items) : Within part (Code.commas items) := by
  unfold Code.commas
  induction items with
  | nil => cases h
  | cons item rest ih =>
      cases rest with
      | nil =>
          obtain rfl := List.mem_singleton.mp h
          rw [String.intercalate_singleton]
          exact refl part
      | cons next others =>
          rw [String.intercalate_cons_cons, String.append_assoc]
          rcases List.mem_cons.mp h with rfl | hrest
          · exact (refl part).append_right _
          · exact ((ih hrest).append_left _).append_left _

end Within

namespace Code

/-! ## Parts -/

/-- The expressions that an expression is put together from. -/
def parts : Code → List Code
  | .verbatim _ | .int _ | .float _ | .bool _ | .string _ | .quoted _ | .unit | .name _
  | .eventName _ | .nothing => []
  | .member inner _ | .unary _ inner | .cast inner _ | .size inner | .group inner | .borrow inner
  | .clone inner | .take inner | .boxed _ inner | .unboxed _ inner | .draw inner _ _ _ => [inner]
  | .binary _ left right | .bare _ left right | .event left right | .entry left right
  | .equals left right | .holds left _ right => [left, right]
  | .call _ args => args
  | .method receiver _ args => receiver :: args
  | .table _ values => values
  | .vector items | .slice items => items

/-- A table has a key for each of its values. -/
def isKeyed : Code → Bool
  | .table keys values => values.length ≤ keys.length
  | _ => true

/-- An expression does something itself: it calls a function that does not only compute, takes a
value out of a variable, or draws an element. -/
def acts : Code → Bool
  | .take _ | .draw _ _ _ _ => true
  | .call function _ => !computingFunctions.contains function
  | .method _ function _ => function ≠ indexMethod
  | _ => false

theorem renderAll_eq_map (codes : List Code) : renderAll codes = codes.map render := by
  induction codes with
  | nil => rfl
  | cons code rest ih => rw [renderAll, ih, List.map_cons]

theorem within_commas {part : Code} {codes : List Code} (h : part ∈ codes) :
    Within part.render (commas (renderAll codes)) := by
  rw [renderAll_eq_map]
  exact .commas (List.mem_map_of_mem h)

theorem within_entries {part : Code} {keys : List String} {values : List Code}
    (hkeys : values.length ≤ keys.length) (h : part ∈ values) :
    Within part.render (commas (List.zipWith entryText keys (renderAll values))) := by
  obtain ⟨index, hindex, rfl⟩ := List.getElem_of_mem h
  have hentry : (List.zipWith entryText keys (renderAll values))[index]? =
      some (entryText keys[index] values[index].render) := by
    rw [renderAll_eq_map, List.getElem?_zipWith, List.getElem?_map,
      List.getElem?_eq_getElem (Nat.lt_of_lt_of_le hindex hkeys), List.getElem?_eq_getElem hindex]
    rfl
  have hvalue : Within values[index].render (entryText keys[index] values[index].render) :=
    ((Within.refl _).append_left _).append_right _
  exact hvalue.trans (.commas (List.mem_of_getElem? hentry))

/-- The text of a part stands in the text of the whole. -/
theorem within_render {part code : Code} (hkeyed : code.isKeyed = true) (h : part ∈ code.parts) :
    Within part.render code.render := by
  have hpart := Within.refl part.render
  cases code with
  | verbatim | int | float | bool | string | quoted | unit | name | eventName | nothing =>
      exact absurd h List.not_mem_nil
  | member | size =>
      obtain rfl := List.mem_singleton.mp h
      exact (hpart.append_right _).append_right _
  | clone | unboxed =>
      obtain rfl := List.mem_singleton.mp h
      exact hpart.append_right _
  | borrow =>
      obtain rfl := List.mem_singleton.mp h
      exact hpart.append_left _
  | unary | group | take | boxed =>
      obtain rfl := List.mem_singleton.mp h
      exact (hpart.append_left _).append_right _
  | cast =>
      obtain rfl := List.mem_singleton.mp h
      exact (((hpart.append_left _).append_right _).append_right _).append_right _
  | draw =>
      obtain rfl := List.mem_singleton.mp h
      iterate 13 refine Within.append_right ?_ _
      exact hpart.append_left _
  | call | vector | slice => exact ((within_commas h).append_left _).append_right _
  | table keys values =>
      have hkeys : values.length ≤ keys.length := of_decide_eq_true hkeyed
      exact ((within_entries hkeys h).append_left _).append_right _
  | method receiver function args =>
      rcases List.mem_cons.mp h with rfl | hargs
      · iterate 4 refine Within.append_right ?_ _
        exact hpart.append_right _
      · exact ((within_commas hargs).append_left _).append_right _
  | binary operator left right =>
      rcases List.mem_pair.mp h with rfl | rfl
      · iterate 5 refine Within.append_right ?_ _
        exact hpart.append_left _
      · exact (hpart.append_left _).append_right _
  | bare operator left right =>
      rcases List.mem_pair.mp h with rfl | rfl
      · iterate 3 refine Within.append_right ?_ _
        exact hpart.append_right _
      · exact hpart.append_left _
  | entry object under =>
      rcases List.mem_pair.mp h with rfl | rfl
      · iterate 2 refine Within.append_right ?_ _
        exact hpart.append_right _
      · exact (hpart.append_left _).append_right _
  | holds object entry item =>
      rcases List.mem_pair.mp h with rfl | rfl
      · iterate 8 refine Within.append_right ?_ _
        exact hpart.append_right _
      · exact (hpart.append_left _).append_right _
  | event left right | equals left right =>
      rcases List.mem_pair.mp h with rfl | rfl
      · iterate 3 refine Within.append_right ?_ _
        exact hpart.append_left _
      · exact (hpart.append_left _).append_right _

/-! ## Effects -/

theorem mem_allEffects {codes : List Code} {effect : Code}
    (h : effect ∈ allEffects (allAnonymous codes)) :
    ∃ part ∈ codes, effect ∈ part.anonymous.effects := by
  induction codes with
  | nil => exact absurd h List.not_mem_nil
  | cons code rest ih =>
      rcases List.mem_append.mp h with hcode | hrest
      · exact ⟨code, List.mem_cons_self, hcode⟩
      · obtain ⟨part, hpart, heffect⟩ := ih hrest
        exact ⟨part, List.mem_cons_of_mem _ hpart, heffect⟩

/-- What an expression does is done by itself or by its parts. -/
theorem of_mem_effects {code effect : Code} (h : effect ∈ code.anonymous.effects) :
    (code.acts = true ∧ effect = code.anonymous) ∨
      ∃ part ∈ code.parts, effect ∈ part.anonymous.effects := by
  cases code with
  | verbatim | int | float | bool | string | quoted | unit | name | eventName | nothing =>
      exact absurd h List.not_mem_nil
  | member | unary | cast | size | group | borrow | clone | boxed | unboxed =>
      exact .inr ⟨_, List.mem_singleton_self _, h⟩
  | take | draw =>
      rcases List.mem_cons.mp h with rfl | hinner
      · exact .inl ⟨rfl, rfl⟩
      · exact .inr ⟨_, List.mem_singleton_self _, hinner⟩
  | binary | bare | event | entry | equals | holds =>
      rcases List.mem_append.mp h with hleft | hright
      · exact .inr ⟨_, List.mem_cons_self, hleft⟩
      · exact .inr ⟨_, List.mem_cons_of_mem _ (List.mem_singleton_self _), hright⟩
  | table | vector | slice => exact .inr (mem_allEffects h)
  | call function args =>
      rw [anonymous, effects] at h
      split at h
      · exact .inr (mem_allEffects h)
      · next hcomputing =>
          rcases List.mem_cons.mp h with rfl | hargs
          · exact .inl ⟨by simpa [acts] using hcomputing, rfl⟩
          · exact .inr (mem_allEffects hargs)
  | method receiver function args =>
      have hparts : effect ∈ receiver.anonymous.effects ++ allEffects (allAnonymous args) →
          ∃ part ∈ receiver :: args, effect ∈ part.anonymous.effects := by
        intro hmem
        rcases List.mem_append.mp hmem with hreceiver | hargs
        · exact ⟨receiver, List.mem_cons_self, hreceiver⟩
        · obtain ⟨part, hpart, heffect⟩ := mem_allEffects hargs
          exact ⟨part, List.mem_cons_of_mem _ hpart, heffect⟩
      rw [anonymous, effects] at h
      split at h
      · exact .inr (hparts h)
      · next hindex =>
          rcases List.mem_cons.mp h with rfl | hrest
          · exact .inl ⟨decide_eq_true hindex, rfl⟩
          · exact .inr (hparts hrest)

end Code

end MachineCodegen.Target
