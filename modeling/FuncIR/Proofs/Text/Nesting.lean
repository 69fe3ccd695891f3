import FuncIR.Text.Indented
import Mathlib.Algebra.BigOperators.Group.List.Basic
import Mathlib.Algebra.Ring.Int.Defs
import Mathlib.Data.List.Infix

/-!
# Nested text

The rendering of steps does not know how they are written: a step stands at a level of nesting, which is counted in
integers and never cut off, and a block returns to the level of its header whatever its contents are. Where indents and
dedents match like brackets (`Balanced`), the steps of a block leave the level as they found it, so writing them adds
their rendering (`writeAll_balanced`). The text only grows at each step, balanced or not (`historyOfAll_grows`).
-/

namespace FuncIR.Text.Indented

/-! ## Rendering -/

/-- Two blanks for each level of nesting. -/
def blanks (level : Int) : String :=
  String.ofList (List.replicate (2 * level).toNat ' ')

theorem margin_eq_blanks (level : Nat) : margin level = blanks level := by
  have one : "  " = blanks 1 := by decide
  induction level with
  | zero => rfl
  | succ level ih =>
    have joined : List.replicate (2 * ((level + 1 : Nat) : Int)).toNat ' ' =
        List.replicate (2 * (1 : Int)).toNat ' ' ++ List.replicate (2 * (level : Int)).toNat ' ' := by
      rw [List.replicate_append_replicate]
      congr 1
      omega
    rw [margin, List.replicate_succ, String.join_cons, ← margin, ih, one, blanks, blanks, blanks, joined,
      String.ofList_append]

namespace Step

/-- By how much the steps after this one are nested deeper. -/
def shift : Step → Int
  | .indent => 1
  | .dedent => -1
  | _ => 0

mutual

/-- The text of a step at a level of nesting. -/
def rendering (level : Int) : Step → String
  | .line text => blanks level ++ text ++ "\n"
  | .label name => name ++ ":\n"
  | .blank => "\n"
  | .indent | .dedent => ""
  | .block header steps =>
    blanks level ++ header ++ " \x7b\n" ++ renderingOfAll (level + 1) steps ++ blanks level ++ "\x7d\n"

def renderingOfAll (level : Int) : List Step → String
  | [] => ""
  | step :: steps => rendering level step ++ renderingOfAll (level + step.shift) steps

end

end Step

open Step (renderingOfAll)

/-- How many indents more than dedents are among steps, without those in their blocks. -/
def rise (steps : List Step) : Int :=
  (steps.map Step.shift).sum

/-- Indents and dedents match like brackets: no steps at the beginning have more dedents than indents, all steps have as
many of both, and the same holds in every block. -/
inductive Balanced : List Step → Prop
  | intro {steps : List Step} (level_nonneg : ∀ before, before <+: steps → 0 ≤ rise before)
      (level_restored : rise steps = 0)
      (inside : ∀ header inner, Step.block header inner ∈ steps → Balanced inner) : Balanced steps

/-! ## Writing -/

/-- Writing the steps adds their rendering and leaves the level as it was. -/
def AddsRendering (steps : List Step) : Prop :=
  ∀ written : Indented, written.writeAll steps = ⟨written.text ++ renderingOfAll written.level steps, written.level⟩

theorem line_eq (written : Indented) (text : String) :
    written.line text = ⟨written.text ++ (blanks written.level ++ text ++ "\n"), written.level⟩ := by
  rw [line, margin_eq_blanks]
  simp only [String.append_assoc]

theorem write_block {inner : List Step} (h : AddsRendering inner) (written : Indented) (header : String) :
    written.write (.block header inner) =
      ⟨written.text ++ Step.rendering written.level (.block header inner), written.level⟩ := by
  have brace : " \x7b\n" = " \x7b" ++ "\n" := by decide
  have close : "\x7d\n" = "\x7d" ++ "\n" := by decide
  rw [write, h, closeBlock, dedent, line_eq]
  simp only [openBlock, line_eq, indent, Step.rendering, brace, close, String.append_assoc, Nat.add_sub_cancel,
    Nat.cast_add, Nat.cast_one]

/-- A step that does not go below the outermost level. -/
theorem write_eq {step : Step} (inside : ∀ header inner, step = .block header inner → AddsRendering inner)
    (written : Indented) (h : 0 ≤ written.level + step.shift) : written.write step =
      ⟨written.text ++ step.rendering written.level, (written.level + step.shift).toNat⟩ := by
  cases step with
  | line text => simp [write, line_eq, Step.rendering, Step.shift]
  | label name => simp [write, label, Step.rendering, Step.shift, String.append_assoc]
  | blank => simp [write, blank, Step.rendering, Step.shift]
  | indent =>
    simp [write, indent, Step.rendering, Step.shift]
  | dedent =>
    have down : written.level - 1 = ((written.level : Int) + -1).toNat := by omega
    simpa [write, dedent, Step.rendering, Step.shift] using down
  | block header inner =>
    rw [write_block (inside header inner rfl)]
    simp [Step.shift]

/-- Steps that never go below the outermost level end as deep as they rise. -/
theorem writeAll_eq {steps : List Step} (inside : ∀ header inner, .block header inner ∈ steps → AddsRendering inner)
    (written : Indented) (h : ∀ before, before <+: steps → 0 ≤ written.level + rise before) :
    written.writeAll steps =
      ⟨written.text ++ renderingOfAll written.level steps, (written.level + rise steps).toNat⟩ := by
  induction steps generalizing written with
  | nil => simp [writeAll, renderingOfAll, rise]
  | cons step steps ih =>
    have first : 0 ≤ written.level + step.shift := by
      simpa [rise] using h [step] (by simp)
    have written_eq := write_eq (fun header inner hs => inside header inner (by simp [hs])) written first
    -- The level after the first step is the one from which the others are counted.
    have level_eq : ((written.write step).level : Int) = written.level + step.shift := by
      rw [written_eq]
      exact Int.toNat_of_nonneg first
    have later : ∀ before, before <+: steps → 0 ≤ (written.write step).level + rise before := by
      intro before hb
      have := h (step :: before) (List.prefix_cons_inj step |>.2 hb)
      rw [level_eq]
      simpa [rise, add_assoc] using this
    have rest := ih (fun header inner hs => inside header inner (List.mem_cons_of_mem _ hs)) (written.write step) later
    rw [writeAll, rest, level_eq, written_eq]
    simp [renderingOfAll, rise, String.append_assoc, add_assoc]

theorem Balanced.addsRendering {steps : List Step} (h : Balanced steps) : AddsRendering steps := by
  induction h with
  | intro level_nonneg level_restored inside ih =>
    intro written
    have all := writeAll_eq ih written fun before hb => by
      have := level_nonneg before hb
      omega
    rw [all, level_restored]
    simp

/-! ## Growing -/

/-- The later text is the earlier one with something behind it, or the same. -/
def GrownFrom (earlier later : Indented) : Prop :=
  ∃ more, later.text = earlier.text ++ more

theorem GrownFrom.refl (written : Indented) : GrownFrom written written :=
  ⟨"", by simp⟩

theorem GrownFrom.trans {first second third : Indented} (h : GrownFrom first second) (h' : GrownFrom second third) :
    GrownFrom first third := by
  obtain ⟨more, hm⟩ := h
  obtain ⟨most, hm'⟩ := h'
  exact ⟨more ++ most, by rw [hm', hm, String.append_assoc]⟩

/-- The text grows from a start through what comes in between to an end. -/
structure Growing (start : Indented) (between : List Indented) (last : Indented) : Prop where
  pairwise : (start :: between).Pairwise GrownFrom
  upTo : ∀ written ∈ start :: between, GrownFrom written last

namespace Growing

variable {start middle last : Indented} {between others : List Indented}

theorem nil (written : Indented) : Growing written [] written :=
  ⟨by simp, by simpa using GrownFrom.refl written⟩

theorem singleton (h : GrownFrom start last) : Growing start [last] last :=
  ⟨by simpa using h, by simpa using ⟨h, GrownFrom.refl last⟩⟩

theorem after (h : GrownFrom start middle) (hg : Growing middle between last) : Growing start between last := by
  obtain ⟨fromMiddle, rest⟩ := List.pairwise_cons.1 hg.pairwise
  obtain ⟨whole, parts⟩ := List.forall_mem_cons.1 hg.upTo
  exact ⟨List.pairwise_cons.2 ⟨fun written hw => h.trans (fromMiddle written hw), rest⟩,
    List.forall_mem_cons.2 ⟨h.trans whole, parts⟩⟩

theorem append (hg : Growing start between middle) (hg' : Growing middle others last) :
    Growing start (between ++ others) last := by
  obtain ⟨fromMiddle, rest⟩ := List.pairwise_cons.1 hg'.pairwise
  obtain ⟨whole, parts⟩ := List.forall_mem_cons.1 hg'.upTo
  refine ⟨?_, fun written hw => ?_⟩
  · rw [← List.cons_append]
    exact List.pairwise_append.2 ⟨hg.pairwise, rest, fun written hw later hl =>
      (hg.upTo written hw).trans (fromMiddle later hl)⟩
  · rw [← List.cons_append] at hw
    rcases List.mem_append.1 hw with hw | hw
    · exact (hg.upTo written hw).trans whole
    · exact parts written hw

end Growing

theorem grownFrom_line (written : Indented) (text : String) : GrownFrom written (written.line text) :=
  ⟨_, by rw [line_eq]⟩

mutual

/-- Whatever a step writes, nothing that was there before changes on the way. -/
theorem history_grows (written : Indented) : ∀ step, Growing written (written.history step) (written.write step)
  | .line text => .singleton (grownFrom_line written text)
  | .label name => .singleton ⟨name ++ ":\n", by simp [write, label, String.append_assoc]⟩
  | .blank => .singleton ⟨"\n", rfl⟩
  | .indent => .singleton (.refl written)
  | .dedent => .singleton (.refl written)
  | .block header steps => by
    have opened : GrownFrom written (written.openBlock header) := grownFrom_line written (header ++ " \x7b")
    have closed : GrownFrom ((written.openBlock header).writeAll steps) (written.write (.block header steps)) := by
      rw [write, closeBlock]
      exact grownFrom_line _ _
    rw [history]
    exact (historyOfAll_grows (written.openBlock header) steps |>.after opened).append (.singleton closed)

theorem historyOfAll_grows (written : Indented) :
    ∀ steps, Growing written (written.historyOfAll steps) (written.writeAll steps)
  | [] => .nil written
  | step :: steps => by
    rw [historyOfAll, writeAll]
    exact (history_grows written step).append (historyOfAll_grows (written.write step) steps)

end

/-! ## Balanced steps -/

/-- Balanced steps add their rendering at the level where they start and end at that level; the text only grows from
each of them to the next. -/
theorem writeAll_balanced {steps : List Step} (h : Balanced steps) (written : Indented) :
    written.writeAll steps = ⟨written.text ++ renderingOfAll written.level steps, written.level⟩ ∧
      (written :: written.historyOfAll steps).Pairwise GrownFrom :=
  ⟨h.addsRendering written, (historyOfAll_grows written steps).pairwise⟩

/-- A block with deeper lines and a block in it. -/
def nestedSteps : List Step :=
  [.block "outer" [.label "entry", .indent, .line "deep", .block "inner" [.line "deeper"], .dedent, .line "flat"],
    .blank]

theorem writeAll_balanced_nested : Balanced nestedSteps ∧
    writeAll ⟨"before\n", 1⟩ nestedSteps = ⟨"before\n" ++
      ("  outer \x7b\n" ++ "entry:\n" ++ "      deep\n" ++ "      inner \x7b\n" ++ "        deeper\n" ++
        "      \x7d\n" ++ "    flat\n" ++ "  \x7d\n" ++ "\n"), 1⟩ := by
  have inits {steps : List Step} (h : ∀ before ∈ steps.inits, 0 ≤ rise before) :
      ∀ before, before <+: steps → 0 ≤ rise before :=
    fun before hb => h before ((List.mem_inits before steps).2 hb)
  have inner : Balanced [.line "deeper"] := .intro (inits (by decide)) (by decide) (by simp)
  have outer : Balanced
      [.label "entry", .indent, .line "deep", .block "inner" [.line "deeper"], .dedent, .line "flat"] := by
    refine .intro (inits (by decide)) (by decide) fun header steps hs => ?_
    obtain ⟨rfl, rfl⟩ : header = "inner" ∧ steps = [.line "deeper"] := by simpa using hs
    exact inner
  have nested : Balanced nestedSteps := by
    refine .intro (inits (by decide)) (by decide) fun header steps hs => ?_
    obtain ⟨rfl, rfl⟩ : header = "outer" ∧ steps = _ := by simpa [nestedSteps] using hs
    exact outer
  have rendered : renderingOfAll ((1 : Nat) : Int) nestedSteps =
      "  outer \x7b\n" ++ "entry:\n" ++ "      deep\n" ++ "      inner \x7b\n" ++ "        deeper\n" ++
        "      \x7d\n" ++ "    flat\n" ++ "  \x7d\n" ++ "\n" := by decide
  refine ⟨nested, (writeAll_balanced nested ⟨"before\n", 1⟩).1.trans ?_⟩
  rw [rendered]

/-- Steps that are not balanced can end deeper than they started: the dedent has no effect at the outermost level. -/
example : ({} : Indented).writeAll [.dedent, .indent, .line "text"] = ⟨"  text\n", 1⟩ ∧
    renderingOfAll 0 [.dedent, .indent, .line "text"] = "text\n" := by decide

end FuncIR.Text.Indented
