import FuncIR.Proofs.Cli.Effects
import FuncIR.Proofs.Token.Dumps

/-!
# The listing of a source

What an invocation prints that asks for the tokens of a source is a dump of them (`exists_lexFile_run`), from which the
source can be told: `listing_lossless`.
-/

namespace FuncIR.Cli

open Text (Bytes)
open Text.Utf8 (encode decode)

theorem readSource_run {path source : String} {world : World} {size : Nat}
    (hs : world.store.stat (encode path) = .ok size) (hm : size ≤ maxSourceSize)
    (hr : world.store.read (encode path) = .ok source) :
    (readSource World.host path).run.run world = (.ok source, world) := by
  have sized : (World.host.stat path).run world = (.ok size, world) := by
    rw [World.host, World.ask_run, hs, Except.mapError]
  have found : (World.host.read path).run world = (.ok source, world) := by
    rw [World.host, World.ask_run, hr, Except.mapError]
  rw [readSource, run_bind, run_lift, sized]
  dsimp only
  rw [if_neg (Nat.not_lt.2 hm), run_bind, run_lift, found]
  rfl

theorem exists_logSteps_run (options : ParseOptions) (world : World) (entries : Unit → List Log.Entry) : ∃ log,
    (logSteps World.host options entries).run.run world = (.ok (), { world with log := log }) := by
  unfold logSteps
  split
  · exact ⟨_, rfl⟩
  · exact ⟨_, rfl⟩

theorem exists_lexFile_run {path source : String} {tokens : List Token} {world : World} {size : Nat}
    (options : ParseOptions) (hs : world.store.stat (encode path) = .ok size) (hm : size ≤ maxSourceSize)
    (hr : world.store.read (encode path) = .ok source) (hl : lex source = .ok tokens) :
    ∃ after, (lexFile World.host path options).run.run world = (.ok (), after) ∧
      World.view.Printed world (Token.dump tokens) after := by
  obtain ⟨log, logged⟩ := exists_logSteps_run options world fun _ => Log.ofLexing source
  rw [lexFile, run_bind, readSource_run hs hm hr]
  dsimp only
  rw [run_bind, logged, hl]
  exact ⟨_, rfl, rfl, rfl⟩

/-- An invocation asks for the tokens of a source, whatever else it asks for. -/
def Invocation.Lists (invocation : Invocation) (path : Bytes) : Prop :=
  invocation.lex = some path ∧ (invocation.json = true → invocation.parse.isSome)

theorem Invocation.Lists.execute_eq {invocation : Invocation} {path : Bytes} (h : invocation.Lists path) :
    execute World.host invocation = lexFile World.host (decode path) invocation.options := by
  obtain ⟨hl, hj⟩ := h
  unfold execute
  rw [hl]
  cases hp : invocation.parse with
  | none =>
    have noJson : invocation.json = false := by simpa [hp] using hj
    simp [noJson]
  | some tree => simp

/-- The line of a token says which token it is, and has no line feed in it. So what is printed for a source is one line
for each of its tokens, each ended by a line feed, and no other source gives the same lines. -/
theorem listing_lossless :
    (∀ token other : Token, token.dumpLine = other.dumpLine → token = other) ∧
      (∀ token : Token, '\n' ∉ token.dumpLine.toList) ∧
      ∀ source tokens, lex source = .ok tokens →
        (Token.dump tokens).toList.splitOn '\n' = tokens.map (·.dumpLine.toList) ++ [[]] ∧
        (∀ other others, lex other = .ok others → Token.dump others = Token.dump tokens → other = source) ∧
        ∀ (invocation : Invocation) path (world : World) size, invocation.Lists path →
          world.store.stat (encode (decode path)) = .ok size → size ≤ maxSourceSize →
          world.store.read (encode (decode path)) = .ok source →
          ∃ after, World.run invocation world = (.ok (), after) ∧
            World.view.Printed world (Token.dump tokens) after := by
  refine ⟨fun _ _ => Token.dumpLine_injective, Token.newline_notMem_dumpLine, fun source tokens hl => ?_⟩
  refine ⟨Token.splitOn_dump tokens, fun other others ho same => ?_,
    fun invocation path world size lists hs hm hr => ?_⟩
  · obtain rfl := Token.dump_injective same
    exact eq_of_lex ho hl
  · rw [World.run, Host.run, lists.execute_eq]
    exact exists_lexFile_run invocation.options hs hm hr hl

/-- What is printed for the source of `oneSource`, line by line. -/
theorem listing_lossless_oneSource :
    ∃ tokens after, lex "func f() \x7b\x7d" = .ok tokens ∧
      World.run { lex := some (encode "f") } oneSource = (.ok (), after) ∧ after.stdout = Token.dump tokens ∧
      after.stdout.toList.splitOn '\n' = [
        "KEYWORD_FUNC           0..4   \"func\"".toList,
        "WHITESPACE             4..5   \" \"".toList,
        "IDENTIFIER             5..6   \"f\"".toList,
        "ROUND_OPEN             6..7   \"(\"".toList,
        "ROUND_CLOSE            7..8   \")\"".toList,
        "WHITESPACE             8..9   \" \"".toList,
        "CURLY_OPEN             9..10  \"\x7b\"".toList,
        "CURLY_CLOSE           10..11  \"\x7d\"".toList,
        "EOF                   11..11  \"\"".toList,
        []] := by
  have lexed : lex "func f() \x7b\x7d" = .ok
      [⟨.keywordFunc, "func", ⟨0, 4⟩⟩, ⟨.whitespace, " ", ⟨4, 5⟩⟩, ⟨.identifier, "f", ⟨5, 6⟩⟩,
        ⟨.roundOpen, "(", ⟨6, 7⟩⟩, ⟨.roundClose, ")", ⟨7, 8⟩⟩, ⟨.whitespace, " ", ⟨8, 9⟩⟩,
        ⟨.curlyOpen, "\x7b", ⟨9, 10⟩⟩,
        ⟨.curlyClose, "\x7d", ⟨10, 11⟩⟩, .endOfInput 11] := by decide +kernel
  obtain ⟨lines, -, prints⟩ := listing_lossless.2.2 _ _ lexed
  obtain ⟨after, ran, -, printed⟩ :=
    prints { lex := some (encode "f") } (encode "f") oneSource 11 ⟨rfl, nofun⟩ (by decide +kernel) (by decide)
      (by decide +kernel)
  have dumped : after.stdout = _ := printed.trans String.empty_append
  refine ⟨_, after, lexed, ran, dumped, ?_⟩
  rw [dumped, lines]
  decide +kernel

end FuncIR.Cli
