import MachineCodegen.Proofs.Layout.Lines
import MachineCodegen.Target.Item
set_option autoImplicit false

/-!
# Balanced layouts (SPEC §10.1)

Entries are balanced when they lead from every depth back to it and never below it.  The depth
counts where a line stands as well as what follows it: a line that closes one brace and opens
another ends where it began, but stands one level further out.

Parts of a layout are not balanced by themselves: an opening line leads one level up, a closing
line one level down.  So the depth is measured from any base below it, and entries are put together
by where they lead.
-/

namespace MachineCodegen

namespace Layout

/-- The depths that a line passes through: where it stands, and what follows it. -/
def lineDepths (depth : Nat) (raw : List Char) : List Nat :=
  let line := Text.trim raw
  [lineDepth depth line, depthAfter (lineDepth depth line) line]

/-- The depths that lines pass through. -/
def linesDepths (cursor : Cursor) : List (List Char) → List Nat
  | [] => []
  | raw :: rest => lineDepths cursor.depth raw ++ linesDepths (writeLine cursor raw).1 rest

/-- The depths that an entry passes through. -/
def entryDepths (cursor : Cursor) : Layout → List Nat
  | .code text => linesDepths cursor (Text.lines text.toList)
  | .blank => []

/-- The depths that entries pass through. -/
def depths (cursor : Cursor) : List Layout → List Nat
  | [] => []
  | entry :: rest => entryDepths cursor entry ++ depths (write cursor entry).1 rest

/-- From every depth the entries lead back to it, and never below it. -/
structure IsBalanced (entries : List Layout) : Prop where
  back : ∀ cursor : Cursor, (writeAll cursor entries).1.depth = cursor.depth
  above : ∀ cursor : Cursor, ∀ d ∈ depths cursor entries, cursor.depth ≤ d

/-- From `k` levels above any base the entries lead to `l` levels above it, and never below it. -/
structure Leads (k l : Nat) (entries : List Layout) : Prop where
  back : ∀ (cursor : Cursor) (base : Nat), cursor.depth = base + k →
    (writeAll cursor entries).1.depth = base + l
  above : ∀ (cursor : Cursor) (base : Nat), cursor.depth = base + k →
    ∀ d ∈ depths cursor entries, base ≤ d

theorem writeAll_concat (cursor : Cursor) (xs : List Layout) (x : Layout) :
    writeAll cursor (xs ++ [x]) = ((write (writeAll cursor xs).1 x).1,
      (writeAll cursor xs).2 ++ (write (writeAll cursor xs).1 x).2) := by
  simp [writeAll_append, writeAll]

theorem isBalanced_iff {entries : List Layout} : IsBalanced entries ↔ Leads 0 0 entries := by
  constructor
  · intro h
    refine ⟨fun cursor base hbase => ?_, fun cursor base hbase d hd => ?_⟩
    · rw [h.back cursor, hbase]
    · have := h.above cursor d hd
      omega
  · intro h
    exact ⟨fun cursor => h.back cursor cursor.depth rfl,
      fun cursor => h.above cursor cursor.depth rfl⟩

theorem depths_append (cursor : Cursor) (xs ys : List Layout) :
    depths cursor (xs ++ ys) = depths cursor xs ++ depths (writeAll cursor xs).1 ys := by
  induction xs generalizing cursor with
  | nil => rfl
  | cons x xs ih =>
      simp only [List.cons_append, depths, writeAll, ih, List.append_assoc]

namespace Leads

variable {k l m : Nat} {xs ys : List Layout}

theorem nil : Leads k k [] :=
  ⟨fun _ _ hbase => hbase, fun _ _ _ _ hd => nomatch hd⟩

theorem append (hxs : Leads k l xs) (hys : Leads l m ys) : Leads k m (xs ++ ys) := by
  refine ⟨fun cursor base hbase => ?_, fun cursor base hbase d hd => ?_⟩
  · rw [writeAll_append]
    exact hys.back _ base (hxs.back cursor base hbase)
  · rw [depths_append] at hd
    rcases List.mem_append.mp hd with hfirst | hlast
    · exact hxs.above cursor base hbase d hfirst
    · exact hys.above _ base (hxs.back cursor base hbase) d hlast

/-- What leads somewhere from a base does so from every base below. -/
theorem raise (h : Leads k l xs) (n : Nat) : Leads (k + n) (l + n) xs := by
  refine ⟨fun cursor base hbase => ?_, fun cursor base hbase d hd => ?_⟩
  · have := h.back cursor (base + n) (by omega)
    omega
  · have := h.above cursor (base + n) (by omega) d hd
    omega

/-- A line leads from where it stands to what follows it. -/
theorem line {text : String} (hone : OneLine text) (hne : text.toList ≠ [])
    (hstand : ∀ base, lineDepth (base + k) (Text.trim text.toList) = base + m)
    (hafter : ∀ base, depthAfter (base + m) (Text.trim text.toList) = base + l) :
    Leads k l [.code text] := by
  have hlines := Text.lines_of_not_mem hone hne
  refine ⟨fun cursor base hbase => ?_, fun cursor base hbase d hd => ?_⟩
  · have hdepth : depthAfter (lineDepth cursor.depth (Text.trim text.toList))
        (Text.trim text.toList) = base + l := by rw [hbase, hstand, hafter]
    rw [← hdepth]
    simp only [writeAll, write, hlines, writeLines, writeLine]
    split
    · next hempty =>
        rw [List.isEmpty_iff.mp hempty]
        rfl
    · rfl
  · simp only [depths, entryDepths, hlines, linesDepths, lineDepths, List.append_nil,
      List.mem_cons, List.not_mem_nil, or_false, hbase, hstand, hafter] at hd
    omega

end Leads

/-! ## Lines -/

theorem isBlank_of_isClosing {c : Char} (h : isClosing c = true) : Text.isBlank c = false := by
  simp only [isClosing, Bool.or_eq_true, beq_iff_eq] at h
  rcases h with (rfl | rfl) | rfl <;> decide

theorem isBlank_of_isOpening {c : Char} (h : isOpening c = true) : Text.isBlank c = false := by
  simp only [isOpening, Bool.or_eq_true, beq_iff_eq] at h
  rcases h with (rfl | rfl) | rfl <;> decide

theorem toList_ne_nil_of_head {p : Char → Bool} {s : String} (h : s.toList.head?.any p = true) :
    s.toList ≠ [] := by
  intro hnil
  rw [hnil] at h
  exact nomatch h

section

variable {text : String}

theorem lineDepth_of_phrase (h : IsPhrase text) (depth : Nat) :
    lineDepth depth (Text.trim text.toList) = depth := by
  have hstarts := h.starts
  rw [Option.any_eq_true] at hstarts
  obtain ⟨c, hc, hplain⟩ := hstarts
  obtain ⟨rest, hrest⟩ := List.head?_eq_some_iff.mp hc
  simp only [Bool.and_eq_true, Bool.not_eq_true'] at hplain
  rw [lineDepth, hrest, Text.head?_trim hplain.1]
  simp [hplain.2]

theorem lineDepth_of_startsClosing (h : StartsClosing text) (depth : Nat) :
    lineDepth (depth + 1) (Text.trim text.toList) = depth := by
  rw [StartsClosing, Option.any_eq_true] at h
  obtain ⟨c, hc, hclosing⟩ := h
  obtain ⟨rest, hrest⟩ := List.head?_eq_some_iff.mp hc
  rw [lineDepth, hrest, Text.head?_trim (isBlank_of_isClosing hclosing)]
  simp [hclosing]

theorem depthAfter_of_level (h : (Text.trim text.toList).getLast?.any isOpening = false)
    (depth : Nat) : depthAfter depth (Text.trim text.toList) = depth := by
  simp [depthAfter, h]

theorem depthAfter_of_endsOpening (h : EndsOpening text) (depth : Nat) :
    depthAfter depth (Text.trim text.toList) = depth + 1 := by
  rw [EndsOpening, Option.any_eq_true] at h
  obtain ⟨c, hc, hopening⟩ := h
  obtain ⟨start, hstart⟩ := List.getLast?_eq_some_iff.mp hc
  rw [depthAfter, hstart, Text.getLast?_trim (isBlank_of_isOpening hopening)]
  simp [hopening]

/-- A line that leaves the depth as it is. -/
theorem leads_sentence (h : IsSentence text) : Leads 0 0 [.code text] := by
  refine Leads.line h.oneLine (toList_ne_nil_of_head h.starts) (m := 0) ?_ ?_
  · intro base
    exact lineDepth_of_phrase h.toIsPhrase base
  · intro base
    exact depthAfter_of_level h.ends base

/-- A line that opens a bracket. -/
theorem leads_up (h : IsPhrase text) (hend : EndsOpening text) : Leads 0 1 [.code text] := by
  refine Leads.line h.oneLine (toList_ne_nil_of_head h.starts) (m := 0) ?_ ?_
  · intro base
    exact lineDepth_of_phrase h base
  · intro base
    exact depthAfter_of_endsOpening hend base

/-- A line that closes a bracket. -/
theorem leads_down (hone : OneLine text) (hstart : StartsClosing text) (hend : EndsLevel text) :
    Leads 1 0 [.code text] := by
  refine Leads.line hone (toList_ne_nil_of_head hstart) (m := 0) ?_ ?_
  · intro base
    exact lineDepth_of_startsClosing hstart base
  · intro base
    exact depthAfter_of_level hend.trim base

/-- A line that closes a bracket and opens another stands one level further out. -/
theorem leads_over (hone : OneLine text) (hstart : StartsClosing text)
    (hend : EndsOpening text) : Leads 1 1 [.code text] := by
  refine Leads.line hone (toList_ne_nil_of_head hstart) (m := 0) ?_ ?_
  · intro base
    exact lineDepth_of_startsClosing hstart base
  · intro base
    exact depthAfter_of_endsOpening hend base

theorem leads_opening (h : IsPhrase text) : Leads 0 1 [Target.opening text] :=
  leads_up (h.append (by decide)) (any_getLast?_append (by decide))

theorem leads_closing (hone : OneLine text) (hend : EndsLevel ("\x7d" ++ text)) :
    Leads 1 0 [Target.closing text] :=
  leads_down (OneLine.append (by decide) hone) (any_head?_append (by decide)) hend

theorem leads_blank : Leads 0 0 [.blank] := by
  refine ⟨fun cursor base hbase => ?_, fun cursor base hbase d hd => nomatch hd⟩
  have hdepth : (writeBlank cursor).1.depth = cursor.depth := by
    unfold writeBlank
    cases cursor.ending <;> rfl
  exact hdepth.trans hbase

end

/-! ## Groups -/

namespace IsBalanced

variable {xs ys inner : List Layout}

theorem nil : IsBalanced [] := isBalanced_iff.mpr .nil

theorem append (hxs : IsBalanced xs) (hys : IsBalanced ys) : IsBalanced (xs ++ ys) :=
  isBalanced_iff.mpr ((isBalanced_iff.mp hxs).append (isBalanced_iff.mp hys))

theorem sentence {text : String} (h : IsSentence text) : IsBalanced [.code text] :=
  isBalanced_iff.mpr (leads_sentence h)

theorem cons {text : String} (h : IsSentence text) (hxs : IsBalanced xs) :
    IsBalanced (.code text :: xs) :=
  (sentence h).append hxs

/-- What is balanced stays at its level. -/
theorem leads (h : IsBalanced xs) (n : Nat) : Leads n n xs := by
  have hraised := (isBalanced_iff.mp h).raise n
  rwa [Nat.zero_add] at hraised

/-- Entries that are balanced stand between a line that opens a brace and one that closes it. -/
theorem nest {start finish : List Layout} (hstart : Leads 0 1 start) (h : IsBalanced inner)
    (hfinish : Leads 1 0 finish) : IsBalanced (start ++ inner ++ finish) :=
  isBalanced_iff.mpr ((hstart.append (h.leads 1)).append hfinish)

theorem ofEach (h : ∀ entry ∈ xs, IsBalanced [entry]) : IsBalanced xs := by
  induction xs with
  | nil => exact .nil
  | cons entry rest ih =>
      have hfirst := h entry List.mem_cons_self
      exact hfirst.append (ih fun other hother => h other (List.mem_cons_of_mem _ hother))

theorem sentences {texts : List String} (h : ∀ text ∈ texts, IsSentence text) :
    IsBalanced (texts.map Layout.code) := by
  refine .ofEach fun entry hentry => ?_
  obtain ⟨text, htext, rfl⟩ := List.mem_map.mp hentry
  exact .sentence (h text htext)

/-- Blank lines between balanced groups change no depth. -/
theorem spaced {groups : List (List Layout)} (h : ∀ group ∈ groups, IsBalanced group) :
    IsBalanced (Layout.spaced groups) := by
  match groups with
  | [] => exact .nil
  | [group] => exact h group List.mem_cons_self
  | first :: second :: rest =>
      have hfirst := h first List.mem_cons_self
      have hothers : IsBalanced (Layout.spaced (second :: rest)) :=
        spaced fun group hgroup => h group (List.mem_cons_of_mem _ hgroup)
      exact hfirst.append ((isBalanced_iff.mpr leads_blank).append hothers)

end IsBalanced

end Layout

end MachineCodegen
