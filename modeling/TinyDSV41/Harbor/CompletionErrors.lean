/-
**What `shell_completion` raises.**

A text that is no call raises `ModelCompletionFormatError`. Two steps on a call stand outside of the conversion to
it: the reader of JSON may use up the stack of the interpreter, which is no `ValueError`, and a command with half
of a surrogate pair has no bytes to be counted.

* `shellCompletionIn` — `shell_completion` within a stack; `sampledCompletion` — what `generate` makes of it.
* `shellCompletionIn_cases` — it returns what `shellCompletion` returns, or it raises.
* `shell_completion_typed` — the texts of which nothing but a message or the typed error comes, and at which
  `generate` does not fail.
-/

import TinyDSV41.Harbor.ShellCompletion
import TinyDSV41.Lib.Checks

namespace TinyDSV41.Harbor

open Lib Option Numbers List

/-- `FORMAT_ERROR_CODES` -/
def formatErrorCodes : List String :=
  ["unexpected_thinking", "incomplete_tool_envelope", "invalid_tool_json", "unsupported_tool_schema",
    "invalid_shell_arguments", "invalid_shell_command"]

/-- A `ModelCompletionFormatError` with its code, or another exception. -/
inductive Raised
  | format (code : String)
  | other (name : String)
deriving DecidableEq

variable (numbers : Numbers) (deep : Text → Bool)

/-- A turn of the loop over the matches. `deep` are the texts whose reading uses up the stack. -/
def toolCommand (group : Text) : Except Raised Text :=
  if deep group then .error (.other "RecursionError")
  else
    match shellCommand numbers group with
    | .ok command => .ok command
    | .error name => .error (if name ∈ formatErrorCodes then .format name else .other name)

/-- `shell_completion` -/
def shellCompletionIn (value requestId : Text) (truncated : Bool) : Except Raised (Json × Text) :=
  if truncated then .ok (object [("role", literal "assistant"), ("content", .str value)], text "length")
  else if occurs (text "<think>") value || occurs (text "</think>") value then
    .error (.format "unexpected_thinking")
  else
    let found := toolCalls value
    let content := strip found.1
    if occurs openTag content || occurs closeTag content then .error (.format "incomplete_tool_envelope")
    else if found.2 = [] then
      .ok (object [("role", literal "assistant"), ("content", .str content)], text "stop")
    else do
      let commands ← found.2.mapM (toolCommand numbers deep)
      let calls := commands.zipIdx.map fun command =>
        shellCall requestId (decide (found.2.length = 1)) command.1 command.2
      .ok (object [("role", literal "assistant"), ("content", .str content), ("tool_calls", .list calls)],
        text "tool_calls")

/-- What `generate` makes of the text of a completed sampling: the message, the finish reason and the code of
`model_completion_status`; an error is the name of what `_fail_generation` is called for. -/
def sampledCompletion (value requestId : Text) (truncated : Bool) : Except String (Json × Text × Option String) :=
  match shellCompletionIn numbers deep value requestId truncated with
  | .ok (message, finish) => .ok (message, finish, none)
  | .error (.format code) =>
    -- `invalid_tool_status` takes the digest of the bytes of the text.
    if (utf8Length value).isSome then
      .ok (object [("role", literal "assistant"), ("content", .str value)], text "stop", some code)
    else .error "UnicodeEncodeError"
  | .error (.other name) => .error name

/-! ### The condition -/

def surrogate (code : ℕ) : Prop := 55296 ≤ code ∧ code ≤ 57343

/-- The command of a call of the shell that is not blank and has no null character. -/
def statedCommand (group : Text) : Option Text := do
  let call ← (strictLoads numbers group).filter fun call => call.isObject &&
    call.hasKeys ["name", "arguments"] && equalsText (call.get "name") (text "shell")
  let arguments ← (call.get "arguments").filter fun arguments => arguments.hasKeys ["cmd"]
  match arguments.get "cmd" with
  | some (.str command) => if strip command = [] ∨ 0 ∈ command then none else some command
  | _ => none

/-- The envelopes that the loop runs over. -/
def looped (value : Text) (truncated : Bool) : List Text :=
  if truncated || occurs (text "<think>") value || occurs (text "</think>") value ||
    occurs openTag (strip (toolCalls value).1) || occurs closeTag (strip (toolCalls value).1) then []
  else (toolCalls value).2

/-- The envelope is a call that is taken. -/
def Executable (group : Text) : Prop :=
  deep group = false ∧ ∃ command bytes, statedCommand numbers group = some command ∧ utf8Length command = some bytes ∧ bytes ≤ 8192

/-- The envelope is read within the stack, and its command has no half of a surrogate pair. -/
def Safe (group : Text) : Prop :=
  deep group = false ∧ ∀ command, statedCommand numbers group = some command → ∀ code ∈ command, ¬ surrogate code

/-- Every envelope is safe up to the first that is not taken. -/
def Encodable (groups : List Text) : Prop :=
  ∀ before group after, groups = before ++ group :: after →
    (∀ other ∈ before, Executable numbers deep other) → Safe numbers deep group

variable {numbers deep} {group command value : Text}

theorem utf8Length_none : utf8Length value = none ↔ ∃ code ∈ value, surrogate code := by
  constructor
  · induction value with
    | nil => exact nofun
    | cons code rest known =>
      intro none_
      by_cases here : surrogate code
      · exact ⟨code, mem_cons_self, here⟩
      · obtain ⟨width, wide⟩ : ∃ width, utf8Width code = some width := by
          unfold utf8Width
          rw [if_neg (c := 55296 ≤ code ∧ code ≤ 57343) here]
          split_ifs <;> exact ⟨_, rfl⟩
        rw [utf8Length_cons, wide, bind_some, map_eq_none_iff] at none_
        obtain ⟨other, mem, half⟩ := known none_
        exact ⟨other, mem_cons_of_mem _ mem, half⟩
  · rintro ⟨code, mem, half⟩
    cases found : utf8Length value with
    | none => rfl
    | some bytes => exact absurd half (utf8Length_scalar found code mem)

/-- A call is judged by the bytes of its command, and everything else has a code. -/
theorem shellCommand_cases (numbers : Numbers) (group : Text) :
    (∃ command, statedCommand numbers group = some command ∧ shellCommand numbers group =
      match utf8Length command with
      | none => .error "UnicodeEncodeError"
      | some bytes => if 8192 < bytes then .error "invalid_shell_command" else .ok command) ∨
    statedCommand numbers group = none ∧ ∃ code ∈ formatErrorCodes, shellCommand numbers group = .error code := by
  unfold shellCommand statedCommand
  cases strictLoads numbers group with
  | none => exact Or.inr ⟨rfl, _, by decide, rfl⟩
  | some call =>
    dsimp only
    by_cases kind : call.isObject = false
    · exact Or.inr ⟨by simp [kind], "invalid_tool_json", by decide, if_pos kind⟩
    rw [if_neg kind]
    by_cases schema : call.hasKeys ["name", "arguments"] = false ∨ equalsText (call.get "name") (text "shell") = false
    · refine Or.inr ⟨?_, "unsupported_tool_schema", by decide, if_pos schema⟩
      rcases schema with wrong | wrong <;> simp [wrong]
    rw [if_neg schema]
    rw [filter_some, if_pos (by simp_all)]
    simp only [bind_eq_bind, bind_some]
    cases call.get "arguments" with
    | none => exact Or.inr ⟨rfl, _, by decide, rfl⟩
    | some arguments =>
      dsimp only
      by_cases cmd : arguments.hasKeys ["cmd"] = false
      · exact Or.inr ⟨by simp [cmd], "invalid_shell_arguments", by decide, if_pos cmd⟩
      rw [if_neg cmd, filter_some, if_pos (Bool.eq_true_of_not_eq_false cmd), bind_some]
      cases arguments.get "cmd" with
      | none => exact Or.inr ⟨rfl, _, by decide, rfl⟩
      | some value =>
        cases value with
        | str command =>
          by_cases refused : strip command = [] ∨ 0 ∈ command
          · exact Or.inr ⟨if_pos refused, _, by decide, if_pos refused⟩
          · exact Or.inl ⟨command, if_neg refused, if_neg refused⟩
        | _ => exact Or.inr ⟨rfl, _, by decide, rfl⟩

/-- A turn of the loop goes on, or raises the typed error, or raises another one. -/
theorem toolCommand_cases (numbers : Numbers) (deep : Text → Bool) (group : Text) :
    (∃ command, toolCommand numbers deep group = .ok command ∧ Executable numbers deep group ∧ Safe numbers deep group) ∨
    (∃ code ∈ formatErrorCodes, toolCommand numbers deep group = .error (.format code) ∧
      ¬ Executable numbers deep group ∧ Safe numbers deep group) ∨
    ∃ name, toolCommand numbers deep group = .error (.other name) ∧ ¬ Safe numbers deep group := by
  unfold toolCommand
  cases stack : deep group with
  | true => exact Or.inr (Or.inr ⟨_, rfl, fun safe => absurd (safe.1.symm.trans stack) (by decide)⟩)
  | false =>
    rcases shellCommand_cases numbers group with ⟨command, states, made⟩ | ⟨states, code, known, made⟩
    · have only {other} (found : statedCommand numbers group = some other) : command = other :=
        Option.mem_unique states found
      rw [made]
      cases bytes : utf8Length command with
      | none =>
        obtain ⟨code, mem, half⟩ := utf8Length_none.mp bytes
        exact Or.inr (Or.inr ⟨_, rfl, fun safe => safe.2 command states code mem half⟩)
      | some count =>
        have safe : Safe numbers deep group := by
          refine ⟨stack, fun other found code mem half => ?_⟩
          cases only found
          cases bytes.symm.trans (utf8Length_none.mpr ⟨code, mem, half⟩)
        dsimp only
        by_cases large : 8192 < count
        · rw [if_pos large]
          refine Or.inr (Or.inl ⟨_, by decide, rfl, ?_, safe⟩)
          rintro ⟨-, other, small, found, measured, fits⟩
          cases only found
          cases bytes.symm.trans measured
          omega
        · rw [if_neg large]
          exact Or.inl ⟨command, rfl, ⟨stack, command, count, states, bytes, by omega⟩, safe⟩
    · rw [made]
      dsimp only
      rw [if_pos known]
      refine Or.inr (Or.inl ⟨code, known, rfl, ?_, stack, fun command found => ?_⟩)
      · rintro ⟨-, command, -, found, -⟩
        cases states.symm.trans found
      · cases states.symm.trans found

theorem encodable_cons {rest : List Text} : Encodable numbers deep (group :: rest) ↔
    Safe numbers deep group ∧ (Executable numbers deep group → Encodable numbers deep rest) := by
  constructor
  · refine fun all => ⟨all [] group rest rfl nofun, fun taken before other after same earlier => ?_⟩
    exact all (group :: before) other after (congrArg _ same) (forall_mem_cons.mpr ⟨taken, earlier⟩)
  · rintro ⟨safe, later⟩ before other after same earlier
    cases before with
    | nil =>
      cases same
      exact safe
    | cons first before =>
      cases same
      obtain ⟨taken, earlier⟩ := forall_mem_cons.mp earlier
      exact later taken before other after rfl earlier

/-- The loop. -/
theorem toolCommands_cases (numbers : Numbers) (deep : Text → Bool) (groups : List Text) :
    (∃ commands, groups.mapM (toolCommand numbers deep) = .ok commands ∧ Encodable numbers deep groups) ∨
    (∃ code ∈ formatErrorCodes, groups.mapM (toolCommand numbers deep) = .error (.format code) ∧
      Encodable numbers deep groups) ∨
    ∃ name, groups.mapM (toolCommand numbers deep) = .error (.other name) ∧ ¬ Encodable numbers deep groups := by
  induction groups with
  | nil => exact Or.inl ⟨[], rfl, fun before group after same => by cases before <;> cases same⟩
  | cons group rest known =>
    rw [mapM_cons, encodable_cons]
    rcases toolCommand_cases numbers deep group with
      ⟨command, made, taken, safe⟩ | ⟨code, valid, made, refused, safe⟩ | ⟨name, made, unsafe_⟩
    · rw [made]
      rcases known with ⟨commands, later, all⟩ | ⟨code, valid, later, all⟩ | ⟨name, later, broken⟩
      · exact Or.inl ⟨command :: commands, by rw [later]; rfl, safe, fun _ => all⟩
      · exact Or.inr (Or.inl ⟨code, valid, by rw [later]; rfl, safe, fun _ => all⟩)
      · exact Or.inr (Or.inr ⟨name, by rw [later]; rfl, fun both => broken (both.2 taken)⟩)
    · exact Or.inr (Or.inl ⟨code, valid, by rw [made]; rfl, safe, fun taken => absurd taken refused⟩)
    · exact Or.inr (Or.inr ⟨name, by rw [made]; rfl, fun both => unsafe_ both.1⟩)

theorem shellCompletionIn_cases (numbers : Numbers) (deep : Text → Bool) (value requestId : Text) (truncated : Bool) :
    (∃ made, shellCompletionIn numbers deep value requestId truncated = .ok made ∧
      Encodable numbers deep (looped value truncated)) ∨
    (∃ code ∈ formatErrorCodes, shellCompletionIn numbers deep value requestId truncated = .error (.format code) ∧
      Encodable numbers deep (looped value truncated)) ∨
    ∃ name, shellCompletionIn numbers deep value requestId truncated = .error (.other name) ∧
      ¬ Encodable numbers deep (looped value truncated) := by
  have none_ : Encodable numbers deep [] := fun before group after same => by cases before <;> cases same
  unfold shellCompletionIn looped
  cases truncated with
  | true => exact Or.inl ⟨_, rfl, none_⟩
  | false =>
    rw [if_neg Bool.false_ne_true, Bool.false_or]
    by_cases thinking : (occurs (text "<think>") value || occurs (text "</think>") value) = true
    · rw [if_pos thinking, thinking]
      exact Or.inr (Or.inl ⟨_, by decide, rfl, none_⟩)
    rw [if_neg thinking, Bool.eq_false_of_not_eq_true thinking, Bool.false_or]
    by_cases open_ : (occurs openTag (strip (toolCalls value).1) || occurs closeTag (strip (toolCalls value).1)) = true
    · rw [if_pos open_, if_pos open_]
      exact Or.inr (Or.inl ⟨_, by decide, rfl, none_⟩)
    rw [if_neg open_, if_neg open_]
    by_cases plain : (toolCalls value).2 = []
    · rw [if_pos plain, plain]
      exact Or.inl ⟨_, rfl, none_⟩
    rw [if_neg plain]
    rcases toolCommands_cases numbers deep (toolCalls value).2 with
      ⟨commands, made, all⟩ | ⟨code, valid, made, all⟩ | ⟨name, made, broken⟩
    · exact Or.inl ⟨_, by rw [made]; rfl, all⟩
    · exact Or.inr (Or.inl ⟨code, valid, by rw [made]; rfl, all⟩)
    · exact Or.inr (Or.inr ⟨name, by rw [made]; rfl, broken⟩)

/-- **What comes of a text.** Nothing but a message or the typed error, and no failure of `generate`, exactly if
every envelope is safe up to the first that is not taken. -/
theorem shell_completion_typed (decoded : (utf8Length value).isSome = true) (requestId : Text) (truncated : Bool) :
    (((∃ made, shellCompletionIn numbers deep value requestId truncated = .ok made) ∨ ∃ code ∈ formatErrorCodes,
        shellCompletionIn numbers deep value requestId truncated = .error (.format code)) ↔
      Encodable numbers deep (looped value truncated)) ∧
    ((∃ made, sampledCompletion numbers deep value requestId truncated = .ok made) ↔
      Encodable numbers deep (looped value truncated)) := by
  unfold sampledCompletion
  rcases shellCompletionIn_cases numbers deep value requestId truncated with
    ⟨made, ran, all⟩ | ⟨code, valid, ran, all⟩ | ⟨name, ran, broken⟩
  · rw [ran]
    exact ⟨⟨fun _ => all, fun _ => Or.inl ⟨made, rfl⟩⟩, fun _ => all, fun _ => ⟨_, rfl⟩⟩
  · rw [ran]
    dsimp only
    rw [if_pos decoded]
    exact ⟨⟨fun _ => all, fun _ => Or.inr ⟨code, valid, rfl⟩⟩, fun _ => all, fun _ => ⟨_, rfl⟩⟩
  · rw [ran]
    refine ⟨⟨?_, fun all => absurd all broken⟩, ?_, fun all => absurd all broken⟩
    · rintro (⟨made, same⟩ | ⟨code, -, same⟩) <;> cases same
    · rintro ⟨made, same⟩
      cases same

def halfCall : Text := text
  "<tool_call>\x7b\"name\":\"shell\",\"arguments\":\x7b\"cmd\":\"\\ud800\"\x7d\x7d</tool_call>"

/-- The text is ASCII, and `generate` fails. -/
theorem half_call_fails : (∀ code ∈ halfCall, code < 128) ∧ ∃ name,
    shellCompletionIn (decimal 4300 true) (fun _ => false) halfCall [] false = .error (.other name) ∧
      sampledCompletion (decimal 4300 true) (fun _ => false) halfCall [] false = .error name := by
  refine ⟨by decide, ?_⟩
  have one : (looped halfCall false).map (statedCommand (decimal 4300 true)) = [some [55296]] := by
    decide +kernel
  obtain ⟨group, here, states⟩ := map_eq_singleton_iff.mp one
  unfold sampledCompletion
  rcases shellCompletionIn_cases (decimal 4300 true) (fun _ => false) halfCall [] false with
    ⟨_, _, all⟩ | ⟨_, _, _, all⟩ | ⟨name, ran, -⟩
  rotate_right
  · exact ⟨name, ran, by rw [ran]⟩
  all_goals exact absurd ⟨by decide, by decide⟩ ((all [] group [] here nofun).2 _ states 55296 mem_cons_self)

/-- A text without a call. -/
theorem plain_text_sampled : (∃ made, sampledCompletion (decimal 4300 true) (fun _ => true) (text "done") [] false
    = .ok made) := by
  refine (shell_completion_typed (by decide) [] false).2.mpr fun before group after same => ?_
  cases before <;> cases same

end TinyDSV41.Harbor
