/-
**Shell calls in the text of a model, and their reader at the agent.**

The GPU side reads shell calls out of a text and builds a completion with their commands, as arguments that
are written in JSON; the agent reads these. Both bound a command by its bytes, and the agent bounds its
arguments as well.

* `shellCompletion` — what the GPU side makes of a text.
* `stated` — the commands that a text states.
* `parseCalls_calls` — which calls the agent takes.
* `completion_parsed` — the agent reads the commands that the text states, exactly if their arguments fit.
-/

import TinyDSV41.Lib.JsonEncoding
import TinyDSV41.Harbor.GenerationLimits
import Mathlib.Data.List.DropRight

namespace TinyDSV41.Harbor

open List Lib Option Numbers
open Bool (and_eq_true noConfusion or_eq_true)

/-! ### The GPU side -/

/-- `str.isspace` of a code point. -/
def isSpace (code : ℕ) : Bool :=
  decide (9 ≤ code ∧ code ≤ 13 ∨ 28 ≤ code ∧ code ≤ 32 ∨ code = 133 ∨ code = 160 ∨ code = 5760 ∨
    8192 ≤ code ∧ code ≤ 8202 ∨ code = 8232 ∨ code = 8233 ∨ code = 8239 ∨ code = 8287 ∨ code = 12288)

/-- `str.strip` -/
def strip (value : Text) : Text :=
  ((value.dropWhile isSpace).reverse.dropWhile isSpace).reverse

/-- What stands before and behind the first occurrence of a tag. -/
def cut (tag : Text) : Text → Option (Text × Text)
  | [] => if tag = [] then some ([], []) else none
  | code :: rest =>
    if tag.isPrefixOf (code :: rest) then some ([], (code :: rest).drop tag.length)
    else (cut tag rest).map fun parts => (code :: parts.1, parts.2)

/-- `tag in value` -/
def occurs (tag value : Text) : Bool := (cut tag value).isSome

def openTag : Text := text "<tool_call>"

def closeTag : Text := text "</tool_call>"

/-- The text without the matches of `_TOOL_CALL`, and what the matches hold without blanks around it. -/
def envelopes : ℕ → Text → Text × List Text
  | 0, input => (input, [])
  | fuel + 1, input =>
    match cut openTag input with
    | none => (input, [])
    | some (before, behind) =>
      match cut closeTag behind with
      | none => (input, [])
      | some (inside, rest) =>
        let others := envelopes fuel rest
        (before ++ others.1, strip inside :: others.2)

/-- `_TOOL_CALL.sub("", value)` and the groups of `_TOOL_CALL.finditer(value)` -/
def toolCalls (value : Text) : Text × List Text := envelopes value.length value

section Gpu

variable (numbers : Numbers)

def shellCommand (group : Text) : Except String Text :=
  match strictLoads numbers group with
  | none => .error "invalid_tool_json"
  | some call =>
    if call.isObject = false then .error "invalid_tool_json"
    else if call.hasKeys ["name", "arguments"] = false ∨
        equalsText (call.get "name") (text "shell") = false then .error "unsupported_tool_schema"
    else
      match call.get "arguments" with
      | none => .error "unsupported_tool_schema"
      | some arguments =>
        if arguments.hasKeys ["cmd"] = false then .error "invalid_shell_arguments"
        else
          match arguments.get "cmd" with
          | some (.str command) =>
            if strip command = [] ∨ 0 ∈ command then .error "invalid_shell_command"
            else
              match utf8Length command with
              | none => .error "UnicodeEncodeError"
              | some bytes => if 8192 < bytes then .error "invalid_shell_command" else .ok command
          | _ => .error "invalid_shell_command"

def shellCommands : List Text → Except String (List Text)
  | [] => .ok []
  | group :: rest =>
    match shellCommand numbers group with
    | .error error => .error error
    | .ok command => (shellCommands rest).map (command :: ·)

/-- `{"cmd": command}` -/
def argumentsOf (command : Text) : Json := object [("cmd", .str command)]

/-- `json.dumps(arguments, ensure_ascii=True, allow_nan=False)` -/
def argumentText (command : Text) : Text := codes (dumps .spaced (argumentsOf command))

/-- `"call_" + request_id + suffix` -/
def callId (requestId : Text) (single : Bool) (index : ℕ) : Text :=
  text "call_" ++ requestId ++ if single then [] else 95 :: codes (Nat.toDigits 10 index)

def shellCall (requestId : Text) (single : Bool) (command : Text) (index : ℕ) : Json :=
  object [("id", .str (callId requestId single index)), ("type", literal "function"),
    ("function", object [("name", literal "shell"), ("arguments", .str (argumentText command))])]

/-- `shell_completion`: the message and the finish reason, or the code of the error. -/
def shellCompletion (value requestId : Text) (truncated : Bool) : Except String (Json × Text) :=
  if truncated then .ok (object [("role", literal "assistant"), ("content", .str value)], text "length")
  else if occurs (text "<think>") value || occurs (text "</think>") value then .error "unexpected_thinking"
  else
    let found := toolCalls value
    let content := strip found.1
    if occurs openTag content || occurs closeTag content then .error "incomplete_tool_envelope"
    else if found.2 = [] then
      .ok (object [("role", literal "assistant"), ("content", .str content)], text "stop")
    else
      match shellCommands numbers found.2 with
      | .error error => .error error
      | .ok commands =>
        let calls := commands.zipIdx.map fun command =>
          shellCall requestId (decide (found.2.length = 1)) command.1 command.2
        .ok (object [("role", literal "assistant"), ("content", .str content), ("tool_calls", .list calls)],
          text "tool_calls")

/-- The completion that the controller makes of a message. -/
def completionOf (requestId model : Text) (promptTokens completionTokens : ℕ) (message : Json)
    (finish : Text) : Json :=
  object [("id", .str (text "chatcmpl-" ++ requestId)), ("object", literal "chat.completion"),
    ("model", .str model),
    ("choices", .list [object [("index", .int 0), ("message", message), ("finish_reason", .str finish)]]),
    ("usage", object [("prompt_tokens", .int promptTokens), ("completion_tokens", .int completionTokens),
      ("total_tokens", .int (promptTokens + completionTokens))])]

/-! ### What the text states -/

/-- The commands that a text states; one that is cut off states none. -/
def stated (value : Text) (truncated : Bool) : List Text :=
  if truncated then [] else (toolCalls value).2.filterMap fun group => (shellCommand numbers group).toOption

/-- The answer that a text states: the text as it is if it is cut off, and else what is left without its calls. -/
def answer (value : Text) (truncated : Bool) : Text :=
  if truncated then value else strip (toolCalls value).1

/-- What the agent uses: `strict_json` with the numbers of the reader. -/
def agentServices (validStatus : Json → Text → Bool) : Services where
  strictJson input := (strictLoads numbers input).filter Json.finite
  isSpace := isSpace
  validStatus

end Gpu

/-! ### Lengths -/

/-- The characters that a text takes inside of a literal. -/
def escapedLength (value : Text) : ℕ := (value.flatMap escape).length

theorem dumps_argumentsOf : dumps .spaced (argumentsOf command)
    = "\x7b\"cmd\": \"".toList ++ (command.flatMap escape ++ "\"\x7d".toList) := by
  show _ ++ intercalate _ [quote (text "cmd") ++ _ ++ quote command] ++ _ = _
  rw [intercalate_singleton]
  simp only [quote, append_assoc, cons_append]
  rfl

theorem argumentText_length : (argumentText command).length = escapedLength command + 11 := by
  rw [argumentText, codes_length, dumps_argumentsOf, length_append, length_append]
  show 9 + (escapedLength command + 2) = _
  omega

theorem utf8Length_cons (code : ℕ) (rest : Text) :
    utf8Length (code :: rest) = (utf8Width code).bind fun width => (utf8Length rest).map (width + ·) := by
  unfold utf8Length
  rw [mapM_cons]
  cases utf8Width code with
  | none => rfl
  | some width =>
    cases rest.mapM utf8Width with
    | none | some => rfl

variable {value : Text}

theorem utf8Length_ascii (ascii : ∀ code ∈ value, code < 128) : utf8Length value = some value.length := by
  induction value with
  | nil => rfl
  | cons code rest known =>
    obtain ⟨here, later⟩ := forall_mem_cons.mp ascii
    have width : utf8Width code = some 1 := if_pos here
    rw [utf8Length_cons, width, known later, length_cons, Nat.add_comm]
    rfl

theorem utf8Length_scalar {bytes : ℕ} (found : utf8Length value = some bytes) :
    ∀ code ∈ value, ¬ (55296 ≤ code ∧ code ≤ 57343) := by
  induction value generalizing bytes with
  | nil => exact nofun
  | cons code rest known =>
    rw [utf8Length_cons] at found
    obtain ⟨width, here, found⟩ := bind_eq_some_iff.mp found
    obtain ⟨others, later, -⟩ := map_eq_some_iff.mp found
    refine forall_mem_cons.mpr ⟨fun surrogate => ?_, known later⟩
    unfold utf8Width at here
    rw [if_neg (by omega), if_neg (by omega), if_pos surrogate] at here
    cases here

theorem strip_nil : strip value = [] ↔ ∀ code ∈ value, isSpace code = true := by
  have behind : strip value = [] ↔ ∀ code ∈ value.dropWhile isSpace, isSpace code = true := by
    unfold strip
    rw [reverse_eq_nil_iff, dropWhile_eq_nil_iff]
    exact forall_congr' fun code => by rw [mem_reverse]
  rw [behind, ← dropWhile_eq_nil_iff, dropWhile_idempotent, dropWhile_eq_nil_iff]

/-! ### One command -/

structure Command (command : Text) : Prop where
  written : ∃ code ∈ command, isSpace code = false
  noNul : 0 ∉ command
  size : ∃ bytes, utf8Length command = some bytes ∧ bytes ≤ maxCommandBytes
  small : ∀ code ∈ command, code < 1114112

theorem Command.plain {command : Text} (valid : Command command) : Plain command := by
  obtain ⟨bytes, size, -⟩ := valid.size
  exact scalar_plain fun code mem => ⟨valid.small code mem, utf8Length_scalar size code mem⟩

variable {commands : List Text}

section Gpu

variable {numbers : Numbers}

theorem shellCommand_valid {group command : Text} (small : ∀ code ∈ group, code < 1114112)
    (found : shellCommand numbers group = .ok command) : Command command := by
  unfold shellCommand at found
  cases loaded : strictLoads numbers group with
  | none =>
    rw [loaded] at found
    cases found
  | some call =>
    have texts := loads_small small (filter_eq_some_iff.mp loaded).1
    rw [loaded] at found
    dsimp only at found
    split_ifs at found
    split at found
    · cases found
    · rename_i arguments named
      split_ifs at found
      split at found
      · rename_i cmd stated
        split_ifs at found with refused
        split at found
        · cases found
        · rename_i bytes size
          split_ifs at found with large
          cases found
          obtain ⟨written, noNul⟩ := not_or.mp refused
          refine ⟨?_, noNul, ⟨bytes, size, Nat.le_of_not_lt large⟩, ?_⟩
          · by_contra blank
            refine written (strip_nil.mpr fun code mem => ?_)
            exact Bool.eq_true_of_not_eq_false fun differs => blank ⟨code, mem, differs⟩
          · cases (texts.get named).get stated with
            | str small => exact small
      · cases found

/-- The commands are those of the envelopes, one each. -/
theorem shellCommands_stated {groups : List Text} (found : shellCommands numbers groups = .ok commands) :
    commands.length = groups.length ∧
      (groups.filterMap fun group => (shellCommand numbers group).toOption) = commands ∧
        ∀ command ∈ commands, ∃ group ∈ groups, shellCommand numbers group = .ok command := by
  induction groups generalizing commands with
  | nil =>
    cases found
    exact ⟨rfl, rfl, nofun⟩
  | cons group rest known =>
    rw [shellCommands] at found
    cases one : shellCommand numbers group with
    | error error =>
      rw [one] at found
      cases found
    | ok command =>
      rw [one] at found
      cases later : shellCommands numbers rest with
      | error error =>
        rw [later] at found
        cases found
      | ok others =>
        rw [later] at found
        cases found
        obtain ⟨lengths, stated, all⟩ := known later
        refine ⟨?_, ?_, forall_mem_cons.mpr ⟨⟨group, mem_cons_self, one⟩, fun command mem => ?_⟩⟩
        · rw [length_cons, length_cons, lengths]
        · rw [filterMap_cons, one]
          show command :: _ = _
          rw [stated]
        · obtain ⟨other, there, same⟩ := all command mem
          exact ⟨other, mem_cons_of_mem _ there, same⟩

end Gpu

theorem mem_cut {tag input before behind : Text} (found : cut tag input = some (before, behind)) :
    (∀ code ∈ before, code ∈ input) ∧ ∀ code ∈ behind, code ∈ input := by
  induction input generalizing before with
  | nil =>
    rw [cut] at found
    split_ifs at found
    cases found
    exact ⟨fun _ mem => mem, fun _ mem => mem⟩
  | cons code rest known =>
    rw [cut] at found
    split_ifs at found
    · cases found
      exact ⟨nofun, fun _ mem => mem_of_mem_drop mem⟩
    · obtain ⟨⟨first, second⟩, there, same⟩ := map_eq_some_iff.mp found
      cases same
      obtain ⟨one, two⟩ := known there
      refine ⟨List.forall_mem_cons.mpr ⟨List.mem_cons_self, fun other mem => ?_⟩, fun other mem => ?_⟩
      · exact mem_cons_of_mem _ (one other mem)
      · exact mem_cons_of_mem _ (two other mem)

theorem mem_strip {code : ℕ} (member : code ∈ strip value) : code ∈ value := by
  have within := (dropWhile_suffix _).mem (mem_reverse.mp member)
  exact (dropWhile_suffix _).mem (mem_reverse.mp within)

theorem mem_envelopes {fuel : ℕ} {input group : Text} (mem : group ∈ (envelopes fuel input).2) :
    ∀ code ∈ group, code ∈ input := by
  induction fuel generalizing input with
  | zero => cases mem
  | succ fuel known =>
    rw [envelopes] at mem
    cases opened : cut openTag input with
    | none =>
      rw [opened] at mem
      cases mem
    | some parts =>
      obtain ⟨before, behind⟩ := parts
      rw [opened] at mem
      dsimp only at mem
      have outer := (mem_cut opened).2
      cases closed : cut closeTag behind with
      | none =>
        rw [closed] at mem
        cases mem
      | some parts =>
        obtain ⟨inside, rest⟩ := parts
        rw [closed] at mem
        obtain ⟨within, after⟩ := mem_cut closed
        rcases mem_cons.mp mem with rfl | mem
        · exact fun code there => outer code (within code (mem_strip there))
        · exact fun code there => outer code (after code (known mem code there))

/-! ### The agent -/

theorem argumentsOf_object : argumentsOf command = .object [(text "cmd", .str command)] := rfl

theorem argumentsOf_readable {numbers : Numbers} {command : Text} (valid : Command command) :
    (argumentsOf command).Readable numbers := by
  have key : Plain (text "cmd") := by decide
  rw [argumentsOf_object]
  exact readableEntries_iff.mpr (forall_mem_singleton.mpr ⟨key, valid.plain⟩)

theorem argumentText_bytes {command : Text} (valid : Command command) :
    utf8Length (argumentText command) = some (escapedLength command + 11) := by
  rw [← argumentText_length]
  refine utf8Length_ascii fun code mem => ?_
  obtain ⟨character, there, rfl⟩ := mem_map.mp mem
  have readable : (argumentsOf command).Readable (decimal 0 false) := argumentsOf_readable valid
  have printable := dumps_printable (by decide) (by decide) readable character there
  exact Nat.lt_of_le_of_lt printable.2 (by decide)

section Agent

variable {numbers : Numbers} {validStatus : Json → Text → Bool}

/-- The agent reads the command that the arguments are written for. -/
theorem parseCommand_text {command : Text} (valid : Command command) :
    parseCommand (agentServices numbers validStatus) (argumentText command) = .ok command := by
  have read : (agentServices numbers validStatus).strictJson (argumentText command)
      = some (argumentsOf command) := by
    have distinct : (argumentsOf command).distinct = true := rfl
    have finite : (argumentsOf command).finite = true := rfl
    unfold agentServices argumentText
    dsimp only
    rw [strictLoads_dumps spaced_separates (argumentsOf_readable valid) distinct, arranged_unsorted rfl,
      filter_some, if_pos finite]
  obtain ⟨code, mem, written⟩ := valid.written
  obtain ⟨bytes, size, fits⟩ := valid.size
  have some_ : (command.any fun code => !(agentServices numbers validStatus).isSpace code) = true := by
    refine any_eq_true.mpr ⟨code, mem, ?_⟩
    show (!isSpace code) = true
    rw [written]
    rfl
  have short : (utf8Length command).any (· ≤ maxCommandBytes) = true := by
    rw [size, any_some, decide_eq_true_iff]
    exact fits
  unfold parseCommand
  rw [read, argumentsOf_object]
  dsimp only
  rw [if_pos rfl, if_neg]
  rintro (blank | nul | large)
  · rw [some_] at blank
    cases blank
  · exact valid.noNul nul
  · rw [short] at large
    cases large

variable {requestId : Text}

theorem isCallId_callId (named : isId requestId = true) (single : Bool) (index : ℕ) :
    isCallId (callId requestId single index) = true ↔ single = true ∨ index < 10 ^ 90 := by
  obtain ⟨size, hexadecimal⟩ := Bool.and_eq_true_iff.mp named
  have size := beq_iff_eq.mp size
  have letters : ∀ code ∈ callId requestId single index, (48 ≤ code && code ≤ 57 || 65 ≤ code && code ≤ 90 ||
      97 ≤ code && code ≤ 122 || code == 95 || code == 45) = true := by
    intro code mem
    rcases mem_append.mp mem with mem | mem
    · rcases mem_append.mp mem with mem | mem
      · have all : ∀ code ∈ text "call_", 97 ≤ code ∧ code ≤ 122 ∨ code = 95 := by decide
        have letter := all code mem
        simp only [or_eq_true, and_eq_true, decide_eq_true_iff, beq_iff_eq]
        omega
      · have hex := all_eq_true.mp hexadecimal code mem
        simp only [or_eq_true, and_eq_true, decide_eq_true_iff, beq_iff_eq] at hex ⊢
        omega
    · cases single with
      | true => cases mem
      | false =>
        rcases mem_cons.mp mem with rfl | mem
        · rfl
        · obtain ⟨character, there, rfl⟩ := mem_map.mp mem
          have digits := of_decide_eq_true (digit_toDigits there)
          simp only [or_eq_true, and_eq_true, decide_eq_true_iff, beq_iff_eq]
          omega
  have count : 1 ≤ (callId requestId single index).length ∧ (callId requestId single index).length ≤ 128 ↔
      single = true ∨ index < 10 ^ 90 := by
    rw [← Nat.length_toDigits_le_iff (by decide) (by decide)]
    cases single with
    | true => simp [callId, text, size]
    | false =>
      have whole : (callId requestId false index).length = 38 + (Nat.toDigits 10 index).length := by
        show (text "call_" ++ requestId ++ 95 :: codes (Nat.toDigits 10 index)).length = _
        rw [length_append, length_append, length_cons, codes_length, size]
        show 5 + 32 + (_ + 1) = _
        omega
      simp only [Bool.false_eq_true, false_or]
      omega
  unfold isCallId
  rw [Bool.and_eq_true_iff, decide_eq_true_iff, count]
  exact ⟨fun both => both.1, fun fits => ⟨fits, all_eq_true.mpr letters⟩⟩

theorem callId_injective : Function.Injective (callId requestId false) := by
  intro first second same
  have digits : codes (Nat.toDigits 10 first) = codes (Nat.toDigits 10 second) :=
    tail_eq_of_cons_eq (append_cancel_left same)
  have values : Nat.ofDigitChars 10 (Nat.toDigits 10 first) 0 = Nat.ofDigitChars 10 (Nat.toDigits 10 second) 0 := by
    rw [codes_injective digits]
  rw [Nat.ofDigitChars_toDigits (by decide) (by decide), Nat.ofDigitChars_toDigits (by decide) (by decide)] at values
  exact values

theorem map_ok {First Second : Type} {change : First → Second} {result : Except String First} {value : Second}
    (found : result.map change = .ok value) : ∃ inner, result = .ok inner ∧ change inner = value := by
  cases result with
  | error error => cases found
  | ok inner => exact ⟨inner, rfl, Except.ok.inj found⟩

theorem parseCalls_call (single : Bool) (command : Text) (index : ℕ) (rest : List Json) (seen : List Text) :
    parseCalls (agentServices numbers validStatus) false (shellCall requestId single command index :: rest) seen
      = if isCallId (callId requestId single index) = false ∨ callId requestId single index ∈ seen then
          .error "Invalid or duplicate tool call identity"
        else if (utf8Length (argumentText command)).any (· ≤ maxCommandBytes * 2) = false then
          .error "Invalid tool argument envelope"
        else match parseCommand (agentServices numbers validStatus) (argumentText command) with
          | .error error => .error error
          | .ok command =>
            (parseCalls (agentServices numbers validStatus) false rest (callId requestId single index :: seen)).map
              ((callId requestId single index, command) :: ·) := by
  have kind : (shellCall requestId single command index).get "type" = some (.str (text "function")) := by
    simp [shellCall, literal]
  have identity : (shellCall requestId single command index).get "id"
      = some (.str (callId requestId single index)) := by
    simp [shellCall]
  have function : (shellCall requestId single command index).get "function"
      = some (object [("name", literal "shell"), ("arguments", .str (argumentText command))]) := by
    simp [shellCall]
  have name : (object [("name", literal "shell"), ("arguments", .str (argumentText command))]).get "name"
      = some (.str (text "shell")) := by
    simp [literal]
  have arguments : (object [("name", literal "shell"), ("arguments", .str (argumentText command))]).get "arguments"
      = some (.str (argumentText command)) := by
    simp
  rw [parseCalls, kind, identity, function]
  cases result : parseCommand (agentServices numbers validStatus) (argumentText command) with
  | error | ok =>
    simp only [ne_eq, not_true_eq_false, if_false, bind_some, name, arguments, Bool.false_eq_true, result]

/-- **The agent takes the commands of calls**, exactly if their arguments fit and their identities are short. -/
theorem parseCalls_calls (named : isId requestId = true) {single : Bool}
    (valid : ∀ command ∈ commands, Command command) (alone : single = true → commands.length ≤ 1)
    {start : ℕ} {seen : List Text}
    (fresh : ∀ index, start ≤ index → index < start + commands.length → callId requestId single index ∉
      seen) :
    (∃ taken, parseCalls (agentServices numbers validStatus) false ((commands.zipIdx start).map fun command =>
        shellCall requestId single command.1 command.2) seen = .ok taken ∧ taken.map Prod.snd = commands) ↔
      ∀ entry ∈ commands.zipIdx start, escapedLength entry.1 + 11 ≤ maxCommandBytes * 2 ∧
        (single = true ∨ entry.2 < 10 ^ 90) := by
  induction commands generalizing start seen with
  | nil => exact ⟨nofun, fun _ => ⟨[], rfl, rfl⟩⟩
  | cons command rest known =>
    obtain ⟨here, later⟩ := forall_mem_cons.mp valid
    have first := fresh start (Nat.le_refl start) (by rw [length_cons]; omega)
    have after : ∀ index, start + 1 ≤ index → index < start + 1 + rest.length →
        callId requestId single index ∉ callId requestId single start :: seen := by
      intro index low high mem
      rcases mem_cons.mp mem with same | mem
      · cases single with
        | true =>
          have short := alone rfl
          rw [length_cons] at short
          omega
        | false =>
          have same := callId_injective same
          omega
      · exact fresh index (by omega) (by rw [length_cons]; omega) mem
    have shorter : single = true → rest.length ≤ 1 := fun one => by
      have short := alone one
      rw [length_cons] at short
      omega
    have tail := known later shorter after
    rw [zipIdx_cons, map_cons, forall_mem_cons, ← tail, parseCalls_call, parseCommand_text here,
      argumentText_bytes here, any_some, ← isCallId_callId named single start]
    by_cases identity : isCallId (callId requestId single start) = true
    · rw [if_neg (by rw [identity]; simpa using first)]
      by_cases fits : escapedLength command + 11 ≤ maxCommandBytes * 2
      · rw [if_neg (by rw [decide_eq_true fits]; exact noConfusion)]
        constructor
        · rintro ⟨taken, ran, same⟩
          obtain ⟨others, inner, rfl⟩ := map_ok ran
          exact ⟨⟨fits, identity⟩, others, inner, (cons.inj same).2⟩
        · rintro ⟨-, others, ran, same⟩
          rw [ran]
          exact ⟨_, rfl, congrArg (command :: ·) same⟩
      · rw [if_pos (decide_eq_false fits)]
        exact ⟨fun ⟨_, ran, _⟩ => (by cases ran), fun both => absurd both.1.1 fits⟩
    · rw [if_pos (Or.inl (Bool.eq_false_of_not_eq_true identity))]
      exact ⟨fun ⟨_, ran, _⟩ => (by cases ran), fun both => absurd both.1.2 identity⟩

end Agent

/-! ### The completion -/

/-- The arguments of all commands fit, and so do the identities of their calls. -/
def ArgumentsFit (commands : List Text) : Prop :=
  (∀ command ∈ commands, escapedLength command + 11 ≤ maxCommandBytes * 2) ∧ commands.length ≤ 10 ^ 90

theorem argumentsFit_iff {single : Bool} (alone : single = decide (commands.length = 1)) :
    (∀ entry ∈ commands.zipIdx, escapedLength entry.1 + 11 ≤ maxCommandBytes * 2 ∧
      (single = true ∨ entry.2 < 10 ^ 90)) ↔ ArgumentsFit commands := by
  constructor
  · intro fits
    refine ⟨fun command mem => ?_, ?_⟩
    · obtain ⟨index, within, rfl⟩ := getElem_of_mem mem
      have there : (commands[index], index) ∈ commands.zipIdx :=
        mem_zipIdx_iff_getElem?.mpr (getElem?_eq_getElem within)
      exact (fits _ there).1
    · by_contra many
      have last : commands.length - 1 < commands.length := by omega
      have there : (commands[commands.length - 1], commands.length - 1) ∈ commands.zipIdx :=
        mem_zipIdx_iff_getElem?.mpr (getElem?_eq_getElem last)
      rcases (fits _ there).2 with one | low
      · rw [alone, decide_eq_true_iff] at one
        omega
      · dsimp only at low
        omega
  · rintro ⟨sizes, count⟩ entry mem
    have within := mem_zipIdx' mem
    exact ⟨sizes _ (within.2 ▸ getElem_mem within.1), Or.inr (Nat.lt_of_lt_of_le within.1 count)⟩

section Completion

variable {numbers : Numbers} {validStatus : Json → Text → Bool} {requestId model : Text}
  {promptTokens completionTokens : ℕ}

def messageOf (content : Text) (calls : Option (List Json)) : Json :=
  object ([("role", literal "assistant"), ("content", .str content)] ++
    calls.toList.map fun calls => ("tool_calls", .list calls))

section

variable {lengthStop : Bool} {finish : Text} (content : Text) (calls : Option (List Json))
  (stop : equalsText (some (.str finish)) (text "length") = lengthStop)
  (clean : lengthStop = true ∨ finish = text (if (calls.getD []).isEmpty then "stop" else "tool_calls"))
include content calls stop clean

/-- The agent at the completion of a message: all depends on its calls. -/
theorem parseCompletion_calls : parseCompletion (agentServices numbers validStatus)
        (completionOf requestId model promptTokens completionTokens (messageOf content calls) finish) model
      = match parseCalls (agentServices numbers validStatus) lengthStop (calls.getD []) [] with
        | .error error => .error error
        | .ok commands => .ok ⟨cleanMessage (messageOf content calls) (calls.getD []), commands, lengthStop⟩ := by
  set message := messageOf content calls with message_
  set choice := object [("index", .int 0), ("message", message), ("finish_reason", .str finish)] with choice_
  have served : equalsText ((completionOf requestId model promptTokens completionTokens message finish).get
      "model") model = true := by
    simp [completionOf, equalsText]
  have choices : (completionOf requestId model promptTokens completionTokens message finish).get "choices"
      = some (.list [choice]) := by
    simp [completionOf, choice_]
  have inner : choice.get "message" = some message := by simp [choice_]
  have reason : choice.get "finish_reason" = some (.str finish) := by simp [choice_]
  have role : equalsText (message.get "role") (text "assistant") = true := by
    simp [message_, messageOf, equalsText, literal]
  have said : message.get "content" = some (.str content) := by simp [message_, messageOf]
  have thought : message.get "reasoning_content" = none := by
    cases calls <;> simp [message_, messageOf]
  have taken : callsOf (message.get "tool_calls") = some (calls.getD []) := by
    cases calls <;> simp [message_, messageOf, callsOf]
  have texts : ¬ (isTextOrNull (message.get "content") = false ∨
      isTextOrNull (message.get "reasoning_content") = false) := by
    rw [said, thought]
    exact not_or.mpr ⟨noConfusion, noConfusion⟩
  have finished : ¬ (lengthStop = false ∧ equalsText (some (.str finish))
      (text (if (calls.getD []).isEmpty then "stop" else "tool_calls")) = false) := by
    rintro ⟨ongoing, other⟩
    rcases clean with stopped | same
    · rw [stopped] at ongoing
      cases ongoing
    · rw [same] at other
      simp [equalsText] at other
  unfold parseCompletion
  rw [if_neg (by rw [served]; exact noConfusion), choices]
  dsimp only
  rw [if_neg (by rw [choice_]; exact noConfusion), inner]
  dsimp only
  rw [if_neg (by rw [role]; exact noConfusion), if_neg texts, taken]
  dsimp only
  rw [reason, stop]
  cases parseCalls (agentServices numbers validStatus) lengthStop (calls.getD []) [] with
  | error error => rfl
  | ok taken => exact if_neg finished

theorem parseCompletion_message :
    (∃ parsed, parseCompletion (agentServices numbers validStatus) (completionOf requestId model promptTokens
        completionTokens (messageOf content calls) finish) model = .ok parsed ∧
      parsed.commands.map Prod.snd = commands ∧ parsed.message.get "content" = some (.str content) ∧
        parsed.lengthStop = lengthStop) ↔
      ∃ taken, parseCalls (agentServices numbers validStatus) lengthStop (calls.getD []) [] = .ok taken ∧
        taken.map Prod.snd = commands := by
  have kept : (cleanMessage (messageOf content calls) (calls.getD [])).get "content" = some (.str content) := by
    simp [cleanMessage, messageOf]
  rw [parseCompletion_calls content calls stop clean]
  cases parseCalls (agentServices numbers validStatus) lengthStop (calls.getD []) [] with
  | error error => exact ⟨fun ⟨_, ran, _⟩ => (by cases ran), fun ⟨_, ran, _⟩ => (by cases ran)⟩
  | ok taken =>
    constructor
    · rintro ⟨parsed, ran, same, -⟩
      cases ran
      exact ⟨taken, rfl, same⟩
    · rintro ⟨_, ran, same⟩
      cases ran
      exact ⟨_, rfl, same, kept, rfl⟩

end

end Completion

/-! ### Texts of one call -/

def callOf (command : Text) : Json := object [("name", literal "shell"), ("arguments", argumentsOf command)]

theorem callOf_object : callOf command
    = .object [(text "name", .str (text "shell")), (text "arguments", argumentsOf command)] := rfl

def callText (command : Text) : Text := openTag ++ codes (dumps .spaced (callOf command)) ++ closeTag

theorem cut_skip {first : ℕ} (free : first ∉ value) (tag rest : Text) :
    cut (first :: tag) (value ++ rest) = (cut (first :: tag) rest).map fun parts => (value ++ parts.1, parts.2) := by
  induction value with
  | nil =>
    rw [nil_append]
    cases cut (first :: tag) rest <;> rfl
  | cons code value known =>
    obtain ⟨differs, later⟩ := ne_and_not_mem_of_not_mem_cons free
    have other : (first :: tag).isPrefixOf (code :: (value ++ rest)) = false := by
      rw [isPrefixOf_cons_cons, beq_false_of_ne differs]
      rfl
    rw [cons_append, cut, if_neg (by rw [other]; exact Bool.false_ne_true), known later, Option.map_map]
    rfl

theorem cut_tag (tag rest : Text) (some_ : tag ≠ []) : cut tag (tag ++ rest) = some ([], rest) := by
  cases tag with
  | nil => exact absurd rfl some_
  | cons first tag =>
    have begins : (first :: tag).isPrefixOf (first :: (tag ++ rest)) = true :=
      isPrefixOf_iff_prefix.mpr (prefix_append (first :: tag) rest)
    rw [cons_append, cut, if_pos begins, ← cons_append, drop_left]

theorem escape_free {code : ℕ} (differs : code ≠ 60) : ∀ character ∈ escape code, character.toNat ≠ 60 := by
  have hexadecimal : ∀ digit < 16, (Nat.digitChar digit).toNat ≠ 60 := by decide
  have unit : ∀ unit, ∀ character ∈ escapeUnit unit, character.toNat ≠ 60 := by
    intro unit
    simp only [escapeUnit, forall_mem_cons]
    exact ⟨by decide, by decide, hexadecimal _ (by omega), hexadecimal _ (by omega), hexadecimal _ (by omega),
      hexadecimal _ (by omega), nofun⟩
  unfold escape
  split_ifs with quotes backslash back tab line form carriage printable small
  all_goals try exact all_iff_forall_prop.mp (by decide)
  · intro character mem
    rw [mem_singleton.mp mem, toNat_ofNat (by omega)]
    exact differs
  · exact unit code
  · intro character mem
    rcases mem_append.mp mem with mem | mem
    all_goals exact unit _ character mem

theorem dumps_callOf : dumps .spaced (callOf command)
    = "\x7b\"name\": \"shell\", \"arguments\": \x7b\"cmd\": \"".toList
      ++ (command.flatMap escape ++ "\"\x7d\x7d".toList) := by
  show _ ++ intercalate _ [quote (text "name") ++ _ ++ quote (text "shell"),
    quote (text "arguments") ++ _ ++ dumps .spaced (argumentsOf command)] ++ _ = _
  rw [intercalate_cons_cons, intercalate_singleton, dumps_argumentsOf]
  simp only [append_assoc]
  rfl

theorem strip_ends {first last : ℕ} (middle : Text) (starts : isSpace first = false) (ends : isSpace last = false) :
    strip (first :: (middle ++ [last])) = first :: (middle ++ [last]) := by
  have back : (first :: (middle ++ [last])).reverse = last :: (first :: middle).reverse := by simp
  unfold strip
  rw [dropWhile_cons_of_neg (by rw [starts]; exact Bool.false_ne_true), back,
    dropWhile_cons_of_neg (by rw [ends]; exact Bool.false_ne_true), ← back, reverse_reverse]

section Call

variable {numbers : Numbers} {command : Text} (valid : Command command) (free : 60 ∉ command)

include free in
theorem callOf_free : 60 ∉ codes (dumps .spaced (callOf command)) := by
  have before : ∀ character ∈ "\x7b\"name\": \"shell\", \"arguments\": \x7b\"cmd\": \"".toList,
      character.toNat ≠ 60 := all_iff_forall_prop.mp (by decide)
  have behind : ∀ character ∈ "\"\x7d\x7d".toList, character.toNat ≠ 60 :=
    all_iff_forall_prop.mp (by decide)
  intro mem
  obtain ⟨character, there, same⟩ := mem_map.mp mem
  rw [dumps_callOf] at there
  rcases mem_append.mp there with there | there
  · exact before character there same
  · rcases mem_append.mp there with there | there
    · obtain ⟨code, within, there⟩ := mem_flatMap.mp there
      exact escape_free (fun equal => free (equal ▸ within)) character there same
    · exact behind character there same

include free in
theorem toolCalls_callText : toolCalls (callText command) = ([], [codes (dumps .spaced (callOf command))]) := by
  have ends : strip (codes (dumps .spaced (callOf command))) = codes (dumps .spaced (callOf command)) := by
    have joined : codes (dumps .spaced (callOf command))
        = 123 :: (text "\"name\": \"shell\", \"arguments\": \x7b\"cmd\": \"" ++
          (codes (command.flatMap escape) ++ text "\"\x7d") ++ [125]) := by
      rw [dumps_callOf]
      simp only [codes_append, append_assoc]
      rfl
    rw [joined]
    exact strip_ends _ rfl rfl
  have opened : cut openTag (callText command)
      = some ([], codes (dumps .spaced (callOf command)) ++ closeTag) := by
    exact cut_tag openTag _ (by decide)
  have closed : cut closeTag (codes (dumps .spaced (callOf command)) ++ closeTag)
      = some (codes (dumps .spaced (callOf command)), []) := by
    have last := cut_tag closeTag [] (by decide)
    rw [append_nil] at last
    have skipped := cut_skip (callOf_free free) (text "/tool_call>") closeTag
    refine skipped.trans ?_
    show (cut closeTag closeTag).map _ = _
    rw [last, map_some, append_nil]
  have rest : ∀ fuel, envelopes fuel [] = ([], []) := by
    intro fuel
    cases fuel <;> rfl
  have long : (callText command).length = 11 + (codes (dumps .spaced (callOf command)) ++ closeTag).length := by
    unfold callText
    rw [append_assoc, length_append]
    rfl
  unfold toolCalls
  rw [long, Nat.add_comm, envelopes, opened]
  dsimp only
  rw [closed]
  dsimp only
  rw [rest, ends]
  rfl

include valid in
theorem shellCommand_callOf : shellCommand numbers (codes (dumps .spaced (callOf command))) = .ok command := by
  have key : Plain (text "cmd") ∧ Plain (text "name") ∧ Plain (text "arguments") ∧ Plain (text "shell") := by decide
  have readable : (callOf command).Readable numbers.strict := by
    rw [callOf_object]
    exact readableEntries_iff.mpr (forall_mem_cons.mpr ⟨⟨key.2.1, key.2.2.2⟩,
      forall_mem_singleton.mpr ⟨key.2.2.1, argumentsOf_readable valid⟩⟩)
  have distinct : (callOf command).distinct = true := by
    rw [callOf_object, distinct_object]
    have keys : [text "name", text "arguments"].Nodup := by decide
    exact ⟨keys, forall_mem_cons.mpr ⟨rfl, forall_mem_singleton.mpr rfl⟩⟩
  have name : (callOf command).get "name" = some (.str (text "shell")) := by simp [callOf, literal]
  have arguments : (callOf command).get "arguments" = some (argumentsOf command) := by simp [callOf]
  have cmd : (argumentsOf command).get "cmd" = some (.str command) := by simp [argumentsOf]
  have keys : (callOf command).hasKeys ["name", "arguments"] = true := by
    simp [Json.hasKeys, callOf]
  have inner : (argumentsOf command).hasKeys ["cmd"] = true := by
    simp [Json.hasKeys, argumentsOf]
  obtain ⟨code, mem, written⟩ := valid.written
  obtain ⟨bytes, size, fits⟩ := valid.size
  have some_ : ¬ (strip command = [] ∨ 0 ∈ command) := by
    refine not_or.mpr ⟨fun blank => ?_, valid.noNul⟩
    rw [strip_nil.mp blank code mem] at written
    cases written
  unfold shellCommand
  rw [strictLoads_dumps spaced_separates readable distinct, arranged_unsorted rfl]
  dsimp only
  rw [if_neg (by exact noConfusion), name, keys, arguments, if_neg (by simp [equalsText])]
  dsimp only
  rw [inner, if_neg noConfusion, cmd]
  dsimp only
  rw [if_neg some_, size]
  exact if_neg (Nat.not_lt.mpr fits)

theorem occurs_other (value tag behind : Text) (free : 60 ∉ value)
    (differs : (60 :: tag).isPrefixOf (60 :: (value ++ behind)) = false)
    (later : occurs (60 :: tag) behind = false) : occurs (60 :: tag) (60 :: (value ++ behind)) = false := by
  unfold occurs at later ⊢
  rw [cut, if_neg (by rw [differs]; exact Bool.false_ne_true), cut_skip free, Option.map_map, isSome_map]
  exact later

include valid free in
theorem shellCompletion_callText (requestId : Text) : shellCompletion numbers (callText command) requestId false
    = .ok (object [("role", literal "assistant"), ("content", .str []),
      ("tool_calls", .list [shellCall requestId true command 0])], text "tool_calls") := by
  have unseen : ∀ tag, (60 :: tag).isPrefixOf (callText command) = false →
      (60 :: tag).isPrefixOf closeTag = false → occurs (60 :: tag) (callText command) = false := by
    intro tag first last
    have behind : occurs (60 :: tag) closeTag = false := by
      refine occurs_other (text "/tool_call>") tag [] (by decide) last ?_
      rfl
    have opening : 60 ∉ text "tool_call>" ++ codes (dumps .spaced (callOf command)) :=
      not_mem_append (by decide) (callOf_free free)
    exact occurs_other _ tag _ opening first behind
  have think : occurs (text "<think>") (callText command) = false := unseen (text "think>") rfl rfl
  have thought : occurs (text "</think>") (callText command) = false := unseen (text "/think>") rfl rfl
  unfold shellCompletion
  rw [if_neg Bool.false_ne_true, think, thought, if_neg noConfusion, toolCalls_callText free]
  dsimp only
  rw [if_neg (by decide), if_neg (by simp), shellCommands, shellCommand_callOf valid]
  rfl

include valid free in
theorem stated_callText : stated numbers (callText command) false = [command] := by
  unfold stated
  rw [if_neg Bool.false_ne_true, toolCalls_callText free, filterMap_cons, shellCommand_callOf valid]
  rfl

end Call

/-! ### The agreement -/

section Agreement

variable {numbers : Numbers} {validStatus : Json → Text → Bool} {requestId model : Text}
  {promptTokens completionTokens : ℕ}

/-- **The agent reads the commands and the answer that the text states**, exactly if the arguments fit. -/
theorem completion_parsed {value : Text} (small : ∀ code ∈ value, code < 1114112) (named : isId requestId = true)
    {truncated : Bool} {message : Json} {finish : Text}
    (accepted : shellCompletion numbers value requestId truncated = .ok (message, finish)) :
    (∃ parsed, parseCompletion (agentServices numbers validStatus)
        (completionOf requestId model promptTokens completionTokens message finish) model = .ok parsed ∧
      parsed.commands.map Prod.snd = stated numbers value truncated ∧
        parsed.message.get "content" = some (.str (answer value truncated)) ∧ parsed.lengthStop = truncated) ↔
      ArgumentsFit (stated numbers value truncated) := by
  have nothing : ArgumentsFit [] := ⟨nofun, Nat.zero_le _⟩
  unfold shellCompletion at accepted
  cases truncated with
  | true =>
    cases accepted
    refine (parseCompletion_message _ none rfl (Or.inl rfl)).trans ?_
    exact ⟨fun _ => nothing, fun _ => ⟨[], rfl, rfl⟩⟩
  | false =>
    rw [if_neg Bool.false_ne_true] at accepted
    dsimp only at accepted
    split_ifs at accepted with thinking incomplete plain
    · -- The answer is given without a call.
      cases accepted
      have none_ : stated numbers value false = [] := by
        show filterMap _ (toolCalls value).2 = []
        rw [plain]
        rfl
      rw [none_]
      refine (parseCompletion_message _ none rfl (Or.inr rfl)).trans ?_
      exact ⟨fun _ => nothing, fun _ => ⟨[], rfl, rfl⟩⟩
    · cases ran : shellCommands numbers (toolCalls value).2 with
      | error error =>
        rw [ran] at accepted
        cases accepted
      | ok commands =>
        rw [ran] at accepted
        cases accepted
        obtain ⟨count, same, all⟩ := shellCommands_stated ran
        have valid : ∀ command ∈ commands, Command command := by
          intro command member
          obtain ⟨group, there, found⟩ := all command member
          exact shellCommand_valid (fun code within => small code (mem_envelopes there code within)) found
        have states : stated numbers value false = commands := same
        have alone : decide ((toolCalls value).2.length = 1) = decide (commands.length = 1) := by rw [count]
        rw [states, ← argumentsFit_iff alone]
        refine (parseCompletion_message _ (some _) rfl (Or.inr ?_)).trans ?_
        · cases commands with
          | nil => exact absurd (eq_nil_of_length_eq_zero count.symm) plain
          | cons command rest => rfl
        · exact parseCalls_calls named valid (fun one => count ▸ (of_decide_eq_true one).le)
            nofun

/-- The command `ls`. -/
theorem ls_parsed : ∃ parsed, parseCompletion (agentServices (decimal 4300 true) fun _ _ => false)
    (completionOf (text "0123456789abcdef0123456789abcdef") (text "policy") 5 7 (messageOf []
      (some [shellCall (text "0123456789abcdef0123456789abcdef") true (text "ls") 0])) (text "tool_calls"))
    (text "policy") = .ok parsed ∧ parsed.commands.map Prod.snd = [text "ls"] := by
  have valid : Command (text "ls") :=
    ⟨⟨108, by decide⟩, by decide, ⟨2, rfl, by decide⟩, by decide⟩
  have free : 60 ∉ text "ls" := by decide
  have accepted : shellCompletion (decimal 4300 true) (callText (text "ls"))
      (text "0123456789abcdef0123456789abcdef") false = .ok (object [("role", literal "assistant"), ("content", .str []),
        ("tool_calls", .list [shellCall (text "0123456789abcdef0123456789abcdef") true (text "ls") 0])],
          text "tool_calls") := shellCompletion_callText valid free _
  have small : ∀ code ∈ callText (text "ls"), code < 1114112 := by decide
  obtain ⟨parsed, ran, same, -⟩ := (completion_parsed small (by decide) accepted).mpr (by
    rw [stated_callText valid free]
    exact ⟨List.forall_mem_singleton.mpr (by decide), by decide⟩)
  exact ⟨parsed, ran, same.trans (stated_callText valid free)⟩

/-- A command of 4096 accented letters, which take 8192 bytes and 24576 characters. -/
def accents : Text := replicate 4096 233

theorem utf8Length_replicate (count : ℕ) {code width : ℕ} (one : utf8Width code = some width) :
    utf8Length (replicate count code) = some (count * width) := by
  induction count with
  | zero => rw [replicate_zero, Nat.zero_mul]; rfl
  | succ count known =>
    rw [replicate_succ, utf8Length_cons, one, known, Nat.succ_mul, Nat.add_comm]
    rfl

theorem escapedLength_replicate (count code : ℕ) :
    escapedLength (replicate count code) = count * (escape code).length := by
  unfold escapedLength
  simp

/-- The agent refuses it for the size of its arguments. -/
theorem accents_refused : shellCompletion (decimal 4300 true) (callText accents)
      (text "0123456789abcdef0123456789abcdef") false
        = .ok (messageOf [] (some [shellCall (text "0123456789abcdef0123456789abcdef") true accents 0]),
          text "tool_calls") ∧
    parseCompletion (agentServices (decimal 4300 true) fun _ _ => false)
      (completionOf (text "0123456789abcdef0123456789abcdef") (text "policy") 5 7 (messageOf []
        (some [shellCall (text "0123456789abcdef0123456789abcdef") true accents 0])) (text "tool_calls"))
      (text "policy") = .error "Invalid tool argument envelope" := by
  have all : ∀ code ∈ accents, code = 233 := fun code => eq_of_mem_replicate
  have two : utf8Width 233 = some 2 := by decide
  have bytes : utf8Length accents = some 8192 := utf8Length_replicate 4096 two
  have valid : Command accents := by
    refine ⟨⟨233, mem_replicate.mpr ⟨by decide, rfl⟩, by decide⟩, fun member => ?_,
      ⟨8192, bytes, by decide⟩, fun code member => ?_⟩
    · cases all 0 member
    · rw [all code member]
      decide
  have free : 60 ∉ accents := fun member => by cases all 60 member
  have long : escapedLength accents = 24576 := escapedLength_replicate 4096 233
  refine ⟨shellCompletion_callText valid free _, ?_⟩
  have ongoing : equalsText (some (.str (text "tool_calls"))) (text "length") = false := by decide
  have identity : isCallId (callId (text "0123456789abcdef0123456789abcdef") true 0) = true := by decide
  rw [parseCompletion_calls [] (some _) ongoing (Or.inr rfl), getD_some, parseCalls_call,
    identity, argumentText_bytes valid, long]
  rfl

end Agreement

end TinyDSV41.Harbor
