/-
**The requests of the agent and the limits of the relay.**

`FileRelayAgent.run` keeps a conversation and publishes one request a turn, with its own limit on the
bytes of a request. The CPU relay checks every job by itself: its fields, its deadline, and the fields,
token budget, messages and bytes of its payload.

* `checkJob`, `checkGeneration` — the checks of the relay, with their errors.
* `Agent.step` — one turn of the agent: publish, parse, execute.
* `published_accepted_iff` — which requests of a conversation the relay accepts.

The clock is exact and past the epoch. The relay reads back the value that the agent wrote.
-/

import TinyDSV41.Lib.Json
import TinyDSV41.Lib.Transition
import Mathlib.Tactic.Linarith

namespace TinyDSV41.Harbor

open List Lib System

/-! ### The relay -/

/-- `MAX_BODY` of the relay. -/
def maxBody : ℕ := 512 * 1024

/-- `encoded` of the relay. -/
def encoded (value : Json) : List Char := dumps .compact value

/-- `ID` of the relay: thirty-two hexadecimal digits. -/
def isId (id : Text) : Bool :=
  id.length == 32 && id.all fun code => 48 ≤ code && code ≤ 57 || 97 ≤ code && code ≤ 102

/-- The number that a value is; a Boolean is none. -/
def number : Json → Option ℚ
  | .int value => some value
  | .float value _ => some value
  | _ => none

/-- `value == {key: expected}`. -/
def isSingle (value : Json) (key : String) (expected : Json → Bool) : Bool :=
  match value with
  | .object [(name, inner)] => name == text key && expected inner
  | _ => false

/-- The value is an integer or a float that equals a number; a Boolean equals the number it stands for. -/
def equalsNumber (expected : ℚ) : Json → Bool
  | .bool value => (if value then 1 else 0) == expected
  | value => number value == some expected

def generationFields : List String :=
  ["model", "messages", "max_tokens", "temperature", "top_p", "stop", "stream", "seed", "tools",
    "tool_choice", "parallel_tool_calls", "chat_template_kwargs"]

def messageFields : List String :=
  ["role", "content", "name", "tool_calls", "tool_call_id", "reasoning_content"]

/-- `value is False`, with `False` where the field is missing. -/
def isFalse : Option Json → Bool
  | none | some (.bool false) => true
  | _ => false

/-- `value is None or isinstance(value, str)`; a missing field is `None`. -/
def isTextOrNull : Option Json → Bool
  | none | some .null | some (.str _) => true
  | _ => false

def equalsText : Option Json → Text → Bool
  | some (.str name), model => name == model
  | _, _ => false

def checkMessage (message : Json) : Except String Unit :=
  match message.isObject, message.get "role" with
  | true, some (.str role) =>
    if role ∉ ["system", "user", "assistant", "tool"].map text then .error "Invalid message role"
    else if ∃ key ∈ message.keys, key ∉ messageFields.map text then .error "Unsupported message field"
    else if isTextOrNull (message.get "content") = false then .error "Only text messages are supported"
    else match message.get "reasoning_content" with
      | none => .ok ()
      | some reasoning =>
        if role = text "assistant" ∧ reasoning.isText = true then .ok ()
        else .error "Reasoning content must be an assistant string"
  | _, _ => .error "Invalid message role"

def checkMessages : List Json → Except String Unit
  | [] => .ok ()
  | message :: rest =>
    match checkMessage message with
    | .error error => .error error
    | .ok _ => checkMessages rest

/-- `check_generation`. -/
def checkGeneration (payload : Json) (model : Text) : Except String Unit :=
  if payload.isObject = false ∨ ∃ key ∈ payload.keys, key ∉ generationFields.map text then
    .error "Unsupported generation fields"
  else if equalsText (payload.get "model") model = false ∨ isFalse (payload.get "stream") = false then
    .error "The fixed model and buffered generation are required"
  else if isFalse (payload.get "parallel_tool_calls") = false then
    .error "Parallel tool calls are disabled for this pilot"
  else if (payload.get "chat_template_kwargs").any fun kwargs =>
      !isSingle kwargs "enable_thinking" (equalsNumber 0) then
    .error "Only disabling thinking is supported by the pilot"
  else match payload.get "max_tokens" with
    | some (.int maximum) =>
      if ¬ (1 ≤ maximum ∧ maximum ≤ 2048) then .error "max_tokens must be between 1 and 2048"
      else match payload.get "messages" with
        | some (.list messages) =>
          if ¬ (1 ≤ messages.length ∧ messages.length ≤ 256) then .error "Invalid messages"
          else match checkMessages messages with
            | .error error => .error error
            | .ok _ =>
              if maxBody < (encoded payload).length then .error "Generation payload too large"
              else .ok ()
        | _ => .error "Invalid messages"
    | _ => .error "max_tokens must be between 1 and 2048"

/-- `check_job` at a time. -/
def checkJob (job : Json) (model : Text) (allowExpired : Bool) (now : ℚ) : Except String Unit :=
  if job.isObject = false ∨ (∃ key ∈ job.keys, key ∉ ["id", "operation", "payload", "deadline_unix"].map
      text) ∨ ∃ key ∈ ["id", "operation", "payload", "deadline_unix"].map text, key ∉ job.keys then
    .error "Invalid job fields"
  else match job.get "id" with
    | some (.str id) =>
      if isId id = false then .error "Invalid job ID"
      else match (job.get "deadline_unix").bind number with
        | none => .error "Expired or excessive job deadline"
        | some deadline =>
          if deadline ≤ 0 ∨ now + 3600 < deadline ∨ (allowExpired = false ∧ deadline ≤ now) then
            .error "Expired or excessive job deadline"
          else match job.get "operation", job.get "payload" with
            | some (.str operation), some payload =>
              if operation = text "echo" then
                if isSingle payload "chunks" (equalsNumber 3) then .ok ()
                else .error "Invalid qualification payload"
              else if operation = text "generate" then checkGeneration payload model
              else .error "Unsupported operation"
            | _, _ => .error "Unsupported operation"
    | _ => .error "Invalid job ID"

/-! ### The agent -/

/-- `MAX_REQUEST_BYTES` of the agent. -/
def maxRequestBytes : ℕ := 512 * 1024

/-- `MAX_COMMAND_BYTES`. -/
def maxCommandBytes : ℕ := 8192

/-- `json_bytes`: the text with blanks and a line feed. -/
def jsonBytes (value : Json) : List Char := dumps .spaced value ++ ['\n']

/-- The options that `FileRelayOptions` admits. -/
structure FileRelayOptions where
  generationSeconds : ℕ
  commandSeconds : ℕ
  maxTurns : ℕ
  maxTokens : ℕ
  maxToolOutputBytes : ℕ
  temperature : ℚ
  /-- The text that the temperature is written as. -/
  shortest : List Char
  generationSeconds_bound : 1 ≤ generationSeconds ∧ generationSeconds ≤ 600
  commandSeconds_bound : 1 ≤ commandSeconds ∧ commandSeconds ≤ 12000
  maxTurns_bound : 1 ≤ maxTurns ∧ maxTurns ≤ 1024
  maxTokens_bound : 1 ≤ maxTokens ∧ maxTokens ≤ 32768
  maxToolOutputBytes_bound : 1024 ≤ maxToolOutputBytes ∧ maxToolOutputBytes ≤ 65536
  temperature_bound : 0 ≤ temperature ∧ temperature ≤ 2

/-- What the agent uses besides: `strict_json` of a text, which code points are blank, and
`validate_model_completion_status`. -/
structure Services where
  strictJson : Text → Option Json
  isSpace : ℕ → Bool
  validStatus : Json → Text → Bool

/-- The bytes of a code point in UTF-8; a lone surrogate has none. -/
def utf8Width (code : ℕ) : Option ℕ :=
  if code < 128 then some 1
  else if code < 2048 then some 2
  else if 55296 ≤ code ∧ code ≤ 57343 then none
  else if code < 65536 then some 3
  else some 4

/-- `len(value.encode())`; none where it raises. -/
def utf8Length (value : Text) : Option ℕ := (value.mapM utf8Width).map sum

/-- `CALL_ID`. -/
def isCallId (id : Text) : Bool :=
  decide (1 ≤ id.length ∧ id.length ≤ 128) && id.all fun code =>
    48 ≤ code && code ≤ 57 || 65 ≤ code && code ≤ 90 || 97 ≤ code && code ≤ 122 || code == 95 ||
      code == 45

section Completion

variable (services : Services)

def parseCommand (arguments : Text) : Except String Text :=
  match services.strictJson arguments with
  | none => .error "Invalid JSON"
  | some (.object [(key, value)]) =>
    if key = text "cmd" then
      match value with
      | .str command =>
        if (command.any fun code => !services.isSpace code) = false ∨ 0 ∈ command ∨
            (utf8Length command).any (· ≤ maxCommandBytes) = false then
          .error "Command is invalid or exceeds byte budget"
        else .ok command
      | _ => .error "Command is invalid or exceeds byte budget"
    else .error "Tool arguments must contain only cmd"
  | some _ => .error "Tool arguments must contain only cmd"

/-- The shell calls of a message: their identities, and their commands unless the completion stopped at
its length. -/
def parseCalls (lengthStop : Bool) : List Json → List Text → Except String (List (Text × Text))
  | [], _ => .ok []
  | call :: rest, seen =>
    match call.get "type", call.get "id", call.get "function" with
    | some (.str kind), identity, function =>
      if kind ≠ text "function" then .error "Unsupported tool call"
      else match identity with
        | some (.str identity) =>
          if isCallId identity = false ∨ identity ∈ seen then
            .error "Invalid or duplicate tool call identity"
          else match function.bind fun function => function.get "name" with
            | some (.str name) =>
              if name ≠ text "shell" then .error "Only shell calls are supported"
              else match function.bind fun function => function.get "arguments" with
                | some (.str arguments) =>
                  if (utf8Length arguments).any (· ≤ maxCommandBytes * 2) = false then
                    .error "Invalid tool argument envelope"
                  else if lengthStop then parseCalls lengthStop rest (identity :: seen)
                  else match parseCommand services arguments with
                    | .error error => .error error
                    | .ok command =>
                      (parseCalls lengthStop rest (identity :: seen)).map ((identity, command) :: ·)
                | _ => .error "Invalid tool argument envelope"
            | _ => .error "Only shell calls are supported"
        | _ => .error "Invalid or duplicate tool call identity"
    | _, _, _ => .error "Unsupported tool call"

/-- What `parse_completion` makes of a completion. -/
structure Parsed where
  message : Json
  commands : List (Text × Text)
  lengthStop : Bool

def cleanMessage (message : Json) (calls : List Json) : Json :=
  object ([("role", literal "assistant"), ("content", (message.get "content").getD .null)] ++
    (match message.get "reasoning_content" with
      | none | some .null => []
      | some reasoning => [("reasoning_content", reasoning)]) ++
    if calls.isEmpty then [] else [("tool_calls", .list calls)])

/-- The items of `tool_calls`; `None` and a missing field are no calls. -/
def callsOf : Option Json → Option (List Json)
  | none | some .null => some []
  | some (.list calls) => some calls
  | some _ => none

/-- `parse_completion`. -/
def parseCompletion (response : Json) (expectedModel : Text) : Except String Parsed :=
  if equalsText (response.get "model") expectedModel = false then
    .error "Model identity differs from the selected served model"
  else match response.get "choices" with
    | some (.list [choice]) =>
      if choice.isObject = false then .error "Expected one model choice"
      else match choice.get "message" with
        | none => .error "Invalid assistant completion"
        | some message =>
          if equalsText (message.get "role") (text "assistant") = false then
            .error "Invalid assistant completion"
          else if isTextOrNull (message.get "content") = false ∨
              isTextOrNull (message.get "reasoning_content") = false then
            .error "Assistant content must be text or null"
          else match callsOf (message.get "tool_calls") with
            | none => .error "Expected a list of shell calls"
            | some calls =>
              let lengthStop := equalsText (choice.get "finish_reason") (text "length")
              match parseCalls services lengthStop calls [] with
              | .error error => .error error
              | .ok commands =>
                if lengthStop = false ∧ equalsText (choice.get "finish_reason")
                    (text (if calls.isEmpty then "stop" else "tool_calls")) = false then
                  .error "Completion was not cleanly terminated"
                else .ok ⟨cleanMessage message calls, commands, lengthStop⟩
    | _ => .error "Expected one model choice"

end Completion

/-! ### Observations -/

/-- What a command of the environment returns. -/
structure ExecResult where
  returnCode : ℤ
  stdout : Option Text
  stderr : Option Text
deriving DecidableEq

/-- `value.encode(errors="replace")`, as code points: a lone surrogate is replaced. -/
def replaceSurrogates (value : Text) : Text :=
  value.map fun code => if 55296 ≤ code ∧ code ≤ 57343 then 63 else code

/-- The code points whose bytes fit, and what remains. -/
def keepPrefix : Text → ℕ → Text × ℕ
  | [], remaining => ([], remaining)
  | code :: rest, remaining =>
    let width := (utf8Width code).getD 1
    if width ≤ remaining then
      let (kept, left) := keepPrefix rest (remaining - width)
      (code :: kept, left)
    else ([], remaining)

/-- `tool_observation`. -/
def toolObservation (result : ExecResult) (maximum : ℕ) : Json :=
  let stdout := replaceSurrogates (result.stdout.getD [])
  let stderr := replaceSurrogates (result.stderr.getD [])
  let (first, remaining) := keepPrefix stdout maximum
  let (second, _) := keepPrefix stderr remaining
  object [("exit_code", .int result.returnCode),
    ("truncated", .bool (first.length < stdout.length || second.length < stderr.length)),
    ("stdout", .str first), ("stderr", .str second)]

def toolMessage (identity : Text) (observation : Json) : Json :=
  object [("role", literal "tool"), ("tool_call_id", .str identity),
    ("content", .str ((dumps .spaced observation).map Char.toNat))]

/-! ### The run -/

/-- `TOOLS`, with the deadline of a command. -/
def tools (options : FileRelayOptions) : Json :=
  .list [object [("type", literal "function"), ("function", object [("name", literal "shell"),
    ("description", .str (text "Run a shell command in the task environment. Deadline " ++
      text (toString options.commandSeconds) ++ text " seconds; bounded output.")),
    ("parameters", object [("type", literal "object"),
      ("properties", object [("cmd", object [("type", literal "string")])]),
      ("required", .list [literal "cmd"]), ("additionalProperties", .bool false)])])]]

def firstMessages (options : FileRelayOptions) (instruction : Text) : List Json :=
  [object [("role", literal "system"), ("content", .str
      (text "Solve the task in its Linux environment using the shell tool. " ++
        text "Commands use the environment's working directory; filesystem changes persist, shell state does not. "
        ++ text "Each command has a " ++ text (toString options.commandSeconds) ++
        text "-second deadline and bounded output. " ++
        text "Never assume a failed or timed-out command was not executed. " ++
        text "Finish with a brief final answer and no tool calls."))],
    object [("role", literal "user"), ("content", .str instruction)]]

def payloadOf (options : FileRelayOptions) (model : Text) (messages : List Json) : Json :=
  object [("model", .str model), ("messages", .list messages), ("tools", tools options),
    ("tool_choice", literal "auto"), ("parallel_tool_calls", .bool false),
    ("chat_template_kwargs", object [("enable_thinking", .bool false)]), ("stream", .bool false),
    ("temperature", .float options.temperature options.shortest),
    ("max_tokens", .int options.maxTokens)]

/-- A generation that the agent submits: its id, its messages, when it is made, and how its deadline is
written. -/
structure Submission where
  id : Text
  messages : List Json
  madeAt : ℚ
  deadlineText : List Char

def Submission.deadline (submission : Submission) (options : FileRelayOptions) : ℚ :=
  submission.madeAt + options.generationSeconds

/-- The request that `AsyncFileRelay.generate` writes. -/
def Submission.request (submission : Submission) (options : FileRelayOptions) (model : Text) : Json :=
  object [("id", .str submission.id), ("operation", literal "generate"),
    ("payload", payloadOf options model submission.messages),
    ("deadline_unix", .float (submission.deadline options) submission.deadlineText)]

/-- The agent: its messages, its turns, whether it has stopped, and what it has published. -/
structure Agent where
  messages : List Json
  turns : ℕ
  stopped : Bool
  published : List Submission

/-- A turn, as far as it is decided elsewhere: the id, the clock, the text of the deadline, whether the
request comes to be linked, the completion unless the generation raises, and the results of the commands
up to one that raises. -/
structure Turn where
  id : Text
  now : ℚ
  deadlineText : List Char
  linked : Bool
  response : Option Json
  results : List ExecResult

/-- The messages with the observations of the commands; none where a command raises. -/
def observe (options : FileRelayOptions) : List (Text × Text) → List ExecResult → List Json →
    Option (List Json)
  | [], _, messages => some messages
  | _ :: _, [], _ => none
  | (identity, _) :: commands, result :: results, messages =>
    observe options commands results
      (messages ++ [toolMessage identity (toolObservation result options.maxToolOutputBytes)])

def hasStatus (response : Json) : Bool :=
  match response.get "model_completion_status" with
  | none | some .null => false
  | some _ => true

section Run

variable (services : Services) (options : FileRelayOptions) (model instruction : Text)

def Agent.fresh : Agent := ⟨firstMessages options instruction, 0, false, []⟩

/-- One turn of `run`. -/
def Agent.step (agent : Agent) (turn : Turn) : Option Agent :=
  let submission : Submission := ⟨turn.id, agent.messages, turn.now, turn.deadlineText⟩
  if agent.stopped ∨ options.maxTurns ≤ agent.turns ∨ isId turn.id = false ∨ turn.now < 0 then none
  else if maxRequestBytes < (jsonBytes (submission.request options model)).length ∨
      turn.linked = false then
    -- Raised before the publication.
    some { agent with stopped := true }
  else
    let agent := { agent with published := agent.published ++ [submission] }
    match turn.response with
    | none => some { agent with stopped := true }
    | some response =>
      let status := hasStatus response
      if status ∧ services.validStatus response turn.id = false then some { agent with stopped := true }
      else match parseCompletion services response model with
      | .error _ => some { agent with stopped := true }
      | .ok parsed =>
        let agent := { agent with
          messages := agent.messages ++ [parsed.message], turns := agent.turns + 1 }
        if status ∨ parsed.lengthStop ∨ parsed.commands.isEmpty then
          some { agent with stopped := true }
        else match observe options parsed.commands turn.results agent.messages with
          | none => some { agent with stopped := true }
          | some messages => some { agent with messages := messages }

def agentSystem : System Agent Turn where
  initial agent := agent = .fresh options instruction
  step agent turn := agent.step services options model turn

end Run

/-! ### Messages that the relay takes -/

section Messages

variable {services : Services} {options : FileRelayOptions} {model : Text} {identity : Text}
  {message response observation : Json} {calls messages : List Json} {parsed : Parsed}

theorem checkMessages_ok_iff : checkMessages messages = .ok () ↔
    ∀ message ∈ messages, checkMessage message = .ok () := by
  induction messages with
  | nil => simp [checkMessages]
  | cons message rest known =>
    unfold checkMessages
    cases checked : checkMessage message with
    | error error => simp [checked]
    | ok value => simp [checked, known]

variable {entries : List (String × Json)}

theorem object_expected {allowed : List String} (fields : ∀ name ∈ entries.map Prod.fst, name ∈ allowed) :
    ¬ ∃ key ∈ (object entries).keys, key ∉ allowed.map text := by
  rintro ⟨key, mem, other⟩
  rw [object_keys] at mem
  obtain ⟨name, present, rfl⟩ := mem_map.mp mem
  exact other (text_mem_map.mpr (fields name present))

theorem checkMessage_object (role : String) (fields : ∀ name ∈ entries.map Prod.fst, name ∈ messageFields)
    (known : (object entries).get "role" = some (literal role))
    (admitted : role ∈ ["system", "user", "assistant", "tool"])
    (content : isTextOrNull ((object entries).get "content") = true)
    (reasoning : (object entries).get "reasoning_content" = none ∨ role = "assistant" ∧ ∃ value, (object
      entries).get "reasoning_content" = some (.str value)) :
    checkMessage (object entries) = .ok () := by
  have expected := object_expected fields
  unfold checkMessage
  rw [object_isObject, known]
  simp only [literal]
  rw [if_neg (not_not.mpr (text_mem_map.mpr admitted)), if_neg expected, content, if_neg (by decide)]
  rcases reasoning with absent | ⟨rfl, value, there⟩
  · rw [absent]
  · rw [there]
    simp [Json.isText]

theorem checkMessage_toolMessage (identity : Text) (observation : Json) :
    checkMessage (toolMessage identity observation) = .ok () := by
  refine checkMessage_object "tool" ?_ ?_ ?_ ?_ ?_
  all_goals simp [messageFields, isTextOrNull]

theorem checkMessage_firstMessages (options : FileRelayOptions) (instruction : Text) :
    ∀ message ∈ firstMessages options instruction, checkMessage message = .ok () := by
  intro message mem
  rcases mem_cons.mp mem with rfl | mem
  · refine checkMessage_object "system" ?_ ?_ ?_ ?_ ?_
    all_goals simp [messageFields, isTextOrNull]
  · rw [mem_singleton.mp mem]
    refine checkMessage_object "user" ?_ ?_ ?_ ?_ ?_
    all_goals simp [messageFields, isTextOrNull]

/-- The clean message of a completion that was parsed. -/
theorem checkMessage_cleanMessage (content : isTextOrNull (message.get "content") = true)
    (reasoning : isTextOrNull (message.get "reasoning_content") = true) (calls : List Json) :
    checkMessage (cleanMessage message calls) = .ok () := by
  have taken : isTextOrNull (some ((message.get "content").getD .null)) = true := by
    cases there : message.get "content" with
    | none => rfl
    | some value =>
      rw [there] at content
      exact content
  unfold cleanMessage
  cases there : message.get "reasoning_content" with
  | none =>
    split_ifs
    all_goals
      refine checkMessage_object "assistant" ?_ ?_ ?_ ?_ ?_
      all_goals simp [messageFields, literal, taken]
  | some value =>
    rw [there] at reasoning
    cases value with
    | null | str =>
      split_ifs
      all_goals
        refine checkMessage_object "assistant" ?_ ?_ ?_ ?_ ?_
        all_goals simp [messageFields, literal, taken]
    | _ => cases reasoning

theorem checkMessage_parsed (completed : parseCompletion services response model = .ok parsed) :
    checkMessage parsed.message = .ok () := by
  unfold parseCompletion at completed
  split_ifs at completed
  split at completed
  case h_2 => cases completed
  case h_1 choice _ =>
    split_ifs at completed
    split at completed
    case h_1 => cases completed
    case h_2 message _ =>
      split_ifs at completed with _ texts
      rw [not_or, Bool.not_eq_false, Bool.not_eq_false] at texts
      split at completed
      case h_1 => cases completed
      case h_2 calls _ =>
        simp only at completed
        split at completed
        case h_1 => cases completed
        case h_2 commands _ =>
          split_ifs at completed
          all_goals
            cases completed
            exact checkMessage_cleanMessage texts.1 texts.2 calls

end Messages

/-! ### Requests that the relay takes -/

section Requests

variable {services : Services} {options : FileRelayOptions} {model instruction : Text}
  {messages : List Json} {submission : Submission} {agent next : Agent} {turn : Turn}

theorem payload_length_le (submission : Submission) (options : FileRelayOptions) (model : Text) :
    (encoded (payloadOf options model submission.messages)).length
      ≤ (jsonBytes (submission.request options model)).length := by
  have mem : (text "payload", payloadOf options model submission.messages) ∈
      [("id", Json.str submission.id), ("operation", literal "generate"),
        ("payload", payloadOf options model submission.messages),
        ("deadline_unix", Json.float (submission.deadline options) submission.deadlineText)].map
          fun entry => (text entry.1, entry.2) := by
    simp
  have inside : (dumps .spaced (payloadOf options model submission.messages)).length
      ≤ (dumps .spaced (submission.request options model)).length :=
    dumps_entry_length_le .spaced mem
  calc (encoded (payloadOf options model submission.messages)).length
      ≤ (dumps .spaced (payloadOf options model submission.messages)).length := compact_length_le _
    _ ≤ (dumps .spaced (submission.request options model)).length := inside
    _ ≤ (jsonBytes (submission.request options model)).length := by simp [jsonBytes]

/-- The checks of a payload that is short enough and whose messages pass. -/
theorem checkGeneration_payload_iff (checked : ∀ message ∈ messages, checkMessage message = .ok ())
    (some_message : messages ≠ [])
    (short : (encoded (payloadOf options model messages)).length ≤ maxBody) :
    checkGeneration (payloadOf options model messages) model = .ok () ↔
      options.maxTokens ≤ 2048 ∧ messages.length ≤ 256 := by
  have fields : ¬ ((payloadOf options model messages).isObject = false ∨
      ∃ key ∈ (payloadOf options model messages).keys, key ∉ generationFields.map text) := by
    rw [not_or]
    refine ⟨by simp [payloadOf], object_expected ?_⟩
    simp [generationFields]
  have fixed : ¬ (equalsText ((payloadOf options model messages).get "model") model = false ∨
      isFalse ((payloadOf options model messages).get "stream") = false) := by
    simp [payloadOf, equalsText, isFalse]
  have calls : ¬ isFalse ((payloadOf options model messages).get "parallel_tool_calls") = false := by
    simp [payloadOf, isFalse]
  have thinking : ¬ ((payloadOf options model messages).get "chat_template_kwargs").any (fun kwargs =>
      !isSingle kwargs "enable_thinking" (equalsNumber 0)) = true := by
    have there : (payloadOf options model messages).get "chat_template_kwargs"
        = some (object [("enable_thinking", .bool false)]) := by
      simp [payloadOf]
    rw [there]
    simp [isSingle, object, equalsNumber]
  have maximum : (payloadOf options model messages).get "max_tokens" = some (.int options.maxTokens) := by
    simp [payloadOf]
  have listed : (payloadOf options model messages).get "messages" = some (.list messages) := by
    simp [payloadOf]
  have lower := options.maxTokens_bound.1
  have positive := length_pos_iff.mpr some_message
  unfold checkGeneration
  rw [if_neg fields, if_neg fixed, if_neg calls, if_neg thinking, maximum, listed]
  simp only [checkMessages_ok_iff.mpr checked, if_neg (not_lt.mpr short)]
  split_ifs with tokens count
  all_goals
    simp only [false_iff, true_iff]
    omega

/-- The relay takes a request exactly if it takes its payload, while its deadline lies ahead. -/
theorem checkJob_request {now : ℚ} (named : isId submission.id = true) (epoch : 0 ≤ submission.madeAt)
    (later : submission.madeAt ≤ now) (ahead : now < submission.deadline options) :
    checkJob (submission.request options model) model false now
      = checkGeneration (payloadOf options model submission.messages) model := by
  have fields : ¬ ((submission.request options model).isObject = false ∨
      (∃ key ∈ (submission.request options model).keys,
        key ∉ ["id", "operation", "payload", "deadline_unix"].map text) ∨
      ∃ key ∈ ["id", "operation", "payload", "deadline_unix"].map text,
        key ∉ (submission.request options model).keys) := by
    rw [not_or, not_or]
    refine ⟨by simp [Submission.request], object_expected ?_, ?_⟩
    · simp
    · simp [Submission.request]
  have id : (submission.request options model).get "id" = some (.str submission.id) := by
    simp [Submission.request]
  have deadline : ((submission.request options model).get "deadline_unix").bind number
      = some (submission.deadline options) := by
    simp [Submission.request, number]
  have operation : (submission.request options model).get "operation"
      = some (.str (text "generate")) := by
    simp [Submission.request, literal]
  have payload : (submission.request options model).get "payload"
      = some (payloadOf options model submission.messages) := by
    simp [Submission.request]
  have timely : ¬ (submission.deadline options ≤ 0 ∨ now + 3600 < submission.deadline options ∨
      submission.deadline options ≤ now) := by
    have seconds : (options.generationSeconds : ℚ) ≤ 600 := by
      exact_mod_cast options.generationSeconds_bound.2
    unfold Submission.deadline at ahead ⊢
    rw [not_or, not_or, not_le, not_lt, not_le]
    exact ⟨by linarith, by linarith, ahead⟩
  unfold checkJob
  rw [if_neg fields, id]
  simp only [named, deadline, operation, payload, true_and, if_neg timely]
  simp

/-- What holds of the agent: its messages pass the checks of the relay, and so did those of its requests,
which were short enough to publish. -/
structure Agent.Sound (options : FileRelayOptions) (model : Text) (agent : Agent) : Prop where
  messages : ∀ message ∈ agent.messages, checkMessage message = .ok ()
  some_message : agent.messages ≠ []
  published : ∀ submission ∈ agent.published,
    (∀ message ∈ submission.messages, checkMessage message = .ok ()) ∧ submission.messages ≠ [] ∧
      isId submission.id = true ∧ 0 ≤ submission.madeAt ∧
      (jsonBytes (submission.request options model)).length ≤ maxRequestBytes

theorem observe_checked {commands : List (Text × Text)} {results : List ExecResult}
    {messages later : List Json} (observed : observe options commands results messages = some later)
    (checked : ∀ message ∈ messages, checkMessage message = .ok ()) :
    (∀ message ∈ later, checkMessage message = .ok ()) ∧ (messages ≠ [] → later ≠ []) := by
  induction commands generalizing results messages with
  | nil =>
    cases observed
    exact ⟨checked, id⟩
  | cons command commands known =>
    cases results with
    | nil => cases observed
    | cons result results =>
      obtain ⟨passes, stays⟩ := known observed fun message mem => by
        rcases mem_append.mp mem with before | now
        · exact checked message before
        · rw [mem_singleton.mp now]
          exact checkMessage_toolMessage _ _
      exact ⟨passes, fun _ => stays (by simp)⟩

theorem agent_sound_step (sound : agent.Sound options model)
    (stepped : agent.step services options model turn = some next) : next.Sound options model := by
  obtain ⟨messages, some_message, published⟩ := sound
  unfold Agent.step at stepped
  simp only at stepped
  split_ifs at stepped with idle unpublished
  · cases stepped
    exact ⟨messages, some_message, published⟩
  · rw [not_or, not_or, not_or, not_lt, Bool.not_eq_false] at idle
    rw [not_or, not_lt] at unpublished
    have submitted : ∀ submission ∈ agent.published ++ [⟨turn.id, agent.messages, turn.now,
        turn.deadlineText⟩], (∀ message ∈ submission.messages, checkMessage message = .ok ()) ∧
        submission.messages ≠ [] ∧ isId submission.id = true ∧ 0 ≤ submission.madeAt ∧
        (jsonBytes (submission.request options model)).length ≤ maxRequestBytes := by
      intro submission mem
      rcases mem_append.mp mem with before | now
      · exact published submission before
      · rw [mem_singleton.mp now]
        exact ⟨messages, some_message, idle.2.2.1, idle.2.2.2, unpublished.1⟩
    split at stepped
    case h_1 =>
      cases stepped
      exact ⟨messages, some_message, submitted⟩
    case h_2 response _ =>
      split_ifs at stepped
      · cases stepped
        exact ⟨messages, some_message, submitted⟩
      · split at stepped
        case h_1 =>
          cases stepped
          exact ⟨messages, some_message, submitted⟩
        case h_2 parsed completed =>
          have extended : ∀ message ∈ agent.messages ++ [parsed.message],
              checkMessage message = .ok () := by
            intro message mem
            rcases mem_append.mp mem with before | now
            · exact messages message before
            · rw [mem_singleton.mp now]
              exact checkMessage_parsed completed
          split_ifs at stepped
          · cases stepped
            exact ⟨extended, by simp, submitted⟩
          · split at stepped
            case h_1 =>
              cases stepped
              exact ⟨extended, by simp, submitted⟩
            case h_2 later observed =>
              cases stepped
              obtain ⟨passes, stays⟩ := observe_checked observed extended
              exact ⟨passes, stays (by simp), submitted⟩

theorem agent_sound_run
    (reached : (agentSystem services options model instruction).Reachable always agent) :
    agent.Sound options model := by
  refine reached.invariant (Agent.Sound options model) ?_ ?_
  · rintro _ rfl
    exact ⟨checkMessage_firstMessages options instruction, by simp [Agent.fresh, firstMessages],
      by simp [Agent.fresh]⟩
  · exact fun _ _ _ _ stepped sound => agent_sound_step sound stepped

/-- **Which requests the relay accepts.** In every run of the agent with the relay's model, every request
that it publishes fits the relay's spool; and while its deadline lies ahead, the relay accepts it exactly
if the token budget is at most 2048 and the conversation has at most 256 messages. -/
theorem published_accepted_iff (services : Services) (options : FileRelayOptions)
    (model instruction : Text) (agent : Agent)
    (reached : (agentSystem services options model instruction).Reachable always agent)
    (submission : Submission) (published : submission ∈ agent.published) (now : ℚ)
    (later : submission.madeAt ≤ now) (ahead : now < submission.deadline options) :
    (jsonBytes (submission.request options model)).length ≤ maxBody ∧
    (checkJob (submission.request options model) model false now = .ok () ↔
      options.maxTokens ≤ 2048 ∧ submission.messages.length ≤ 256) := by
  obtain ⟨checked, some_message, named, epoch, short⟩ :=
    (agent_sound_run reached).published submission published
  refine ⟨short, ?_⟩
  rw [checkJob_request named epoch later ahead]
  exact checkGeneration_payload_iff checked some_message
    ((payload_length_le submission options model).trans short)

end Requests

/-! ### One request -/

def sampleOptions (maxTokens : ℕ) (bound : 1 ≤ maxTokens ∧ maxTokens ≤ 32768) : FileRelayOptions where
  generationSeconds := 120
  commandSeconds := 30
  maxTurns := 128
  maxTokens := maxTokens
  maxToolOutputBytes := 16384
  temperature := 0
  shortest := ['0', '.', '0']
  generationSeconds_bound := by decide
  commandSeconds_bound := by decide
  maxTurns_bound := by decide
  maxTokens_bound := bound
  maxToolOutputBytes_bound := by decide
  temperature_bound := by decide

def sampleServices : Services := ⟨fun _ => none, fun _ => false, fun _ _ => false⟩

def sampleTurn : Turn :=
  ⟨text "0123456789abcdef0123456789abcdef", 1000, "1120.0".toList, true, none, []⟩

def sampleSubmission (options : FileRelayOptions) : Submission :=
  ⟨sampleTurn.id, firstMessages options (text "Do it."), 1000, "1120.0".toList⟩

theorem first_published (options : FileRelayOptions)
    (short : (jsonBytes ((sampleSubmission options).request options (text "m"))).length
      ≤ maxRequestBytes) :
    ∃ agent : Agent, (agentSystem sampleServices options (text "m") (text "Do it.")).Reachable
      always agent ∧ sampleSubmission options ∈ agent.published := by
  have stepped : (Agent.fresh options (text "Do it.")).step sampleServices options (text "m") sampleTurn
      = some ⟨firstMessages options (text "Do it."), 0, true, [sampleSubmission options]⟩ := by
    have turns := options.maxTurns_bound.1
    have named : isId sampleTurn.id = true := by decide
    have idle : ¬ ((Agent.fresh options (text "Do it.")).stopped = true ∨
        options.maxTurns ≤ (Agent.fresh options (text "Do it.")).turns ∨
        isId sampleTurn.id = false ∨ sampleTurn.now < 0) := by
      rw [named]
      simp [Agent.fresh, sampleTurn]
      omega
    have fits : ¬ (maxRequestBytes < (jsonBytes ((sampleSubmission options).request options
        (text "m"))).length ∨ sampleTurn.linked = false) := by
      rw [not_or, not_lt]
      exact ⟨short, by decide⟩
    unfold Agent.step
    rw [if_neg idle]
    exact if_neg fits
  exact ⟨_, System.Reachable.step ⟨_, rfl, System.Leads.refl _⟩ trivial stepped, mem_singleton_self _⟩

/-- A token budget that the agent admits, and a first request that the relay refuses. -/
theorem budget_refused : ∃ agent : Agent,
    (agentSystem sampleServices (sampleOptions 4096 (by decide)) (text "m") (text "Do it.")).Reachable
      always agent ∧
    sampleSubmission (sampleOptions 4096 (by decide)) ∈ agent.published ∧
    checkJob ((sampleSubmission (sampleOptions 4096 (by decide))).request
      (sampleOptions 4096 (by decide)) (text "m")) (text "m") false 1000 ≠ .ok () := by
  obtain ⟨agent, reached, published⟩ := first_published (sampleOptions 4096 (by decide))
    (by decide +kernel)
  refine ⟨agent, reached, published, ?_⟩
  have sound := (agent_sound_run reached).published _ published
  rw [Ne, checkJob_request sound.2.2.1 sound.2.2.2.1 (by decide) (by decide +kernel),
    checkGeneration_payload_iff sound.1 sound.2.1 ((payload_length_le _ _ _).trans sound.2.2.2.2)]
  decide

theorem published_accepted_first : ∃ agent : Agent,
    (agentSystem sampleServices (sampleOptions 2048 (by decide)) (text "m") (text "Do it.")).Reachable
      always agent ∧
    checkJob ((sampleSubmission (sampleOptions 2048 (by decide))).request
      (sampleOptions 2048 (by decide)) (text "m")) (text "m") false 1000 = .ok () := by
  obtain ⟨agent, reached, published⟩ := first_published (sampleOptions 2048 (by decide))
    (by decide +kernel)
  obtain ⟨-, accepted⟩ := published_accepted_iff sampleServices (sampleOptions 2048 (by decide))
    (text "m") (text "Do it.") agent reached (sampleSubmission (sampleOptions 2048 (by decide)))
    published 1000 (by decide) (by decide +kernel)
  exact ⟨agent, reached, accepted.mpr (by decide)⟩

end TinyDSV41.Harbor
