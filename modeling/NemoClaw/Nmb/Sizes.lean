import NemoClaw.Lib.Json
import NemoClaw.Nmb.Client
import NemoClaw.Nmb.Routing

/-! Sizes along the bus: `NMBMessage.to_json`, the limit that `validate_frame` puts on a payload and
the limits that the websockets of the broker and of its clients put on a frame. A peer that gets a
frame larger than its limit closes the connection. -/

namespace NemoClaw

open Lib

/-- A payload as the fields of a JSON object. -/
abbrev Payload := List (String × Json ℚ)

/-- `DEFAULT_NMB_MAX_MESSAGE_SIZE`, the `max_size` of the broker's server. -/
def maxMessageSize : ℕ := 10 * 1024 * 1024

/-- The `max_size` of a websocket that is opened without one, as `MessageBus.connect` does. -/
def websocketsMaxSize : ℕ := 1024 * 1024

namespace Sizes

/-- How `json.dumps` and `model_dump_json` write floats. -/
structure FloatTexts where
  dumps : ℚ → List Char
  compact : ℚ → List Char
  dumps_le : ∀ x, utf8Size (dumps x) ≤ 6 * utf8Size (compact x)

/-- A field that `exclude_none` leaves out when it is `None`. -/
def optional {α : Type} (key : String) (value : Option α) (json : α → Json ℚ) : Payload :=
  (value.map fun v => (key, json v)).toList

/-- The fields of a message before its payload. -/
def headerFields (m : NMBMessage Payload) : Payload :=
  ("op", .str m.op.value) :: ("id", .str m.id) ::
    (optional "from_sandbox" m.fromSandbox .str ++ optional "to_sandbox" m.toSandbox .str ++
      optional "type" m.type .str ++ optional "reply_to" m.replyTo .str ++
      optional "channel" m.channel .str ++ optional "stream_id" m.streamId .str ++
      optional "seq" m.seq .int ++ optional "done" m.done .bool ++
      optional "timeout" m.timeout .float ++ optional "timestamp" m.timestamp .float)

/-- The fields of a message, in the order of the model. -/
def fields (m : NMBMessage Payload) : Payload :=
  headerFields m ++ (optional "payload" m.payload .obj ++ (optional "code" m.code .str ++
    optional "message" m.message .str))

variable (F : FloatTexts)

/-- `to_json` -/
def toJson (m : NMBMessage Payload) : List Char :=
  (compactWriter F.compact).write (.obj (fields m))

def frameBytes (m : NMBMessage Payload) : ℕ := utf8Size (toJson F m)

/-- `len(json.dumps(payload).encode())` -/
def payloadBytes (payload : Payload) : ℕ :=
  utf8Size ((asciiWriter F.dumps).write (.obj payload))

/-- The bytes of a payload in a frame. -/
def compactBytes (payload : Payload) : ℕ :=
  utf8Size ((compactWriter F.compact).write (.obj payload))

/-- The bytes of a frame around its payload. -/
def headerBytes (m : NMBMessage Payload) : ℕ := frameBytes F { m with payload := some [] } - 2

/-- The bytes of the DELIVER frame of a message around its payload. -/
def deliverHeaderBytes (senderId : String) (now : ℚ) (m : NMBMessage Payload) : ℕ :=
  headerBytes F (Broker.stamp m senderId now).makeDeliver

/-! ### What a client sends -/

/-- `uuid.uuid4().hex` -/
structure UuidHex where
  text : String
  length_eq : text.toList.length = 32
  isHex : ∀ c ∈ text.toList, c ∈ "0123456789abcdef".toList

/-- The calls of a client that send a payload. -/
inductive Outgoing
  | send (target type : String) (payload : Payload)
  | request (target type : String) (payload : Payload) (timeout : ℚ)
  | reply (original : NMBMessage Payload) (type : String) (payload : Payload)
  | publish (channel type : String) (payload : Payload)
  | chunk (target type : String) (streamId : UuidHex) (seq : ℕ) (done : Bool) (payload : Payload)

namespace Outgoing

def payload : Outgoing → Payload
  | .send _ _ payload | .request _ _ payload _ | .reply _ _ payload | .publish _ _ payload
  | .chunk _ _ _ _ _ payload => payload

/-- The message that the client builds, under a fresh id. -/
def message (id : UuidHex) : Outgoing → NMBMessage Payload
  | .send target type payload => sendMessage id.text target type payload
  | .request target type payload timeout =>
    { op := .request, id := id.text, toSandbox := some target, type := some type
      timeout := some timeout, payload := some payload }
  | .reply original type payload => replyMessage id.text original type payload
  | .publish channel type payload =>
    { op := .publish, id := id.text, channel := some channel, type := some type
      payload := some payload }
  | .chunk target type streamId seq done payload =>
    { op := .stream, id := id.text, toSandbox := some target, type := some type
      streamId := some streamId.text, seq := some seq, done := some done, payload := some payload }

end Outgoing

/-! ### The way of a message -/

/-- What becomes of a message that a client sends. -/
inductive Transit
  /-- the broker closes the connection of the sender -/
  | senderClosed
  /-- the sender reads an error frame -/
  | refused (error : FrameValidationError)
  /-- the sender closes its connection on the error frame -/
  | errorUnread
  /-- the receiver closes its connection on the DELIVER frame -/
  | receiverClosed
  | delivered (frame : NMBMessage Payload)

/-- A message of `senderId`, from its websocket over the broker to the one of a receiver. -/
def transit (senderId : String) (now : ℚ) (m : NMBMessage Payload) : Transit :=
  if maxMessageSize < frameBytes F m then .senderClosed
  else
    let msg := Broker.stamp m senderId now
    match msg.validateFrame (payloadBytes F) with
    | .error exc =>
      if websocketsMaxSize < frameBytes F (Broker.errorFrame msg.id exc.code exc.message) then
        .errorUnread
      else .refused exc
    | .ok () =>
      if websocketsMaxSize < frameBytes F msg.makeDeliver then .receiverClosed
      else .delivered msg.makeDeliver

/-- The sender is told that its payload is too large, or the receiver can read the message. -/
def Transit.Agrees : Transit → Prop
  | .refused exc => exc.code = .payloadTooLarge
  | .delivered _ => True
  | .senderClosed | .errorUnread | .receiverClosed => False

/-! ### Sizes of frames -/

variable {F}

theorem two_le_write_obj (W : Writer ℚ) (payload : Payload) :
    2 ≤ utf8Size (W.write (.obj payload)) := by
  have hopen : utf8Size ['\x7b'] = 1 := rfl
  have hclose : utf8Size ['\x7d'] = 1 := rfl
  cases payload with
  | nil => exact le_refl 2
  | cons field payload =>
    obtain ⟨key, value⟩ := field
    simp only [Writer.write, utf8Size_cons, utf8Size_append, utf8Size_nil] at *
    omega

/-- A frame is its header around its payload. -/
theorem frameBytes_eq {m : NMBMessage Payload} {payload : Payload} (h : m.payload = some payload) :
    frameBytes F m = headerBytes F m + compactBytes F payload := by
  have hempty := two_le_write_obj (compactWriter F.compact)
    (fields { m with payload := some [] })
  have hreplace := (compactWriter F.compact).write_obj_replace (headerFields m)
    (optional "code" m.code .str ++ optional "message" m.message .str) "payload" (.obj payload)
    (.obj [])
  have hfields : fields m = headerFields m ++ ("payload", .obj payload) ::
      (optional "code" m.code .str ++ optional "message" m.message .str) := by
    simp [fields, optional, h]
  have hnil : utf8Size ((compactWriter F.compact).write (.obj [])) = 2 := rfl
  rw [hnil] at hreplace
  unfold headerBytes frameBytes toJson compactBytes
  rw [hfields]
  change _ = utf8Size ((compactWriter F.compact).write (.obj (headerFields m ++ ("payload",
    .obj []) :: (optional "code" m.code .str ++ optional "message" m.message .str)))) - 2 + _
  change 2 ≤ utf8Size ((compactWriter F.compact).write (.obj (headerFields m ++ ("payload",
    .obj []) :: (optional "code" m.code .str ++ optional "message" m.message .str)))) at hempty
  omega

theorem payloadBytes_le (payload : Payload) : payloadBytes F payload ≤ 6 * compactBytes F payload :=
  (asciiWriter_atMost F.dumps_le).write (.obj payload)

/-- An admitted payload is never more than six times as large in ASCII as the frame it came in. -/
theorem payloadBytes_le_of_frame {m : NMBMessage Payload} {payload : Payload}
    (h : m.payload = some payload) (hframe : frameBytes F m ≤ maxMessageSize) :
    payloadBytes F payload < 10 ^ 8 := by
  have hle := payloadBytes_le (F := F) payload
  have heq := frameBytes_eq (F := F) h
  unfold maxMessageSize at hframe
  omega

theorem utf8Size_utf8Char_le (c : Char) : utf8Size (utf8Char c) ≤ 6 := by
  have hle := c.utf8Size_le_four
  unfold utf8Char
  cases shortEscape c with
  | some e =>
    have he := e.utf8Size_le_four
    simp only [utf8Size_cons, utf8Size_nil]
    change 1 + _ ≤ 6
    omega
  | none =>
    dsimp only
    split_ifs
    · simp [utf8Size_unicodeEscape]
    · simp only [utf8Size_cons, utf8Size_nil]
      omega

theorem utf8Size_flatMap_utf8Char_le (text : List Char) :
    utf8Size (text.flatMap utf8Char) ≤ 6 * text.length := by
  induction text with
  | nil => simp
  | cons c text ih =>
    have hc := utf8Size_utf8Char_le c
    simp only [List.flatMap_cons, utf8Size_append, List.length_cons]
    omega

theorem utf8Size_quoted_le (s : String) :
    utf8Size ((compactWriter F.compact).quoted s) ≤ 6 * s.length + 2 := by
  have h := utf8Size_flatMap_utf8Char_le s.toList
  have hquote : utf8Size ['\x22'] = 1 := rfl
  simp only [Writer.quoted, utf8Size_cons, utf8Size_append, utf8Size_nil, compactWriter,
    String.length_toList] at *
  omega

theorem utf8Size_writeFields_str_le (pairs : List (String × String)) :
    utf8Size ((compactWriter F.compact).writeFields (pairs.map fun p => (p.1, .str p.2))) ≤
      (pairs.map fun p => 6 * (p.1.length + p.2.length) + 6).sum := by
  have hitemSep : utf8Size (compactWriter F.compact).itemSep = 1 := rfl
  have hkeySep : utf8Size (compactWriter F.compact).keySep = 1 := rfl
  induction pairs with
  | nil => exact le_rfl
  | cons pair pairs ih =>
    have hkey := utf8Size_quoted_le (F := F) pair.1
    have htext := utf8Size_quoted_le (F := F) pair.2
    simp only [List.map_cons, List.sum_cons, Writer.writeFields, Writer.write, utf8Size_append]
    omega

/-- An object of texts takes at most six bytes a character, and six more a field. -/
theorem utf8Size_write_str_le (pair : String × String) (pairs : List (String × String)) :
    utf8Size ((compactWriter F.compact).write
        (.obj ((pair :: pairs).map fun p => (p.1, .str p.2)))) ≤
      2 + ((pair :: pairs).map fun p => 6 * (p.1.length + p.2.length) + 6).sum := by
  have hfields := utf8Size_writeFields_str_le (F := F) pairs
  have hkey := utf8Size_quoted_le (F := F) pair.1
  have htext := utf8Size_quoted_le (F := F) pair.2
  have hkeySep : utf8Size (compactWriter F.compact).keySep = 1 := rfl
  have hopen : ('\x7b').utf8Size = 1 := rfl
  have hclose : ('\x7d').utf8Size = 1 := rfl
  simp only [List.map_cons, List.sum_cons, Writer.write, utf8Size_cons, utf8Size_append,
    utf8Size_nil]
  omega

theorem errorFrame_bytes_le (msgId : String) (code : ErrorCode) (message : String) :
    frameBytes F (Broker.errorFrame msgId code message) ≤
      6 * (msgId.length + code.value.length + message.length) + 146 := by
  have h := utf8Size_write_str_le (F := F) ("op", "error") [("id", msgId), ("code", code.value),
    ("message", message)]
  have hconstants : "op".length = 2 ∧ "error".length = 5 ∧ "id".length = 2 ∧ "code".length = 4 ∧
      "message".length = 7 := by decide
  simp only [List.map_cons, List.map_nil, List.sum_cons, List.sum_nil, hconstants] at h
  refine le_trans h ?_
  omega

/-- The refusal of a payload can always be read. -/
theorem refusal_bytes_le (id : UuidHex) {n : ℕ} (hn : n < 10 ^ 8) :
    frameBytes F (Broker.errorFrame id.text .payloadTooLarge ("Payload size " ++ toString n ++
      " exceeds " ++ toString maxPayloadBytes ++ " byte limit")) ≤ websocketsMaxSize := by
  have hdigits : (toString n).length ≤ 8 := (Nat.length_repr_le_iff (by decide)).2 hn
  have hlimit : (toString maxPayloadBytes).length = 8 := by decide +kernel
  have hid : id.text.length = 32 := by rw [← String.length_toList, id.length_eq]
  have hcode : ErrorCode.payloadTooLarge.value.length = 17 := by decide
  have hconstants : "Payload size ".length = 13 ∧ " exceeds ".length = 9 ∧
      " byte limit".length = 11 := by decide
  refine le_trans (errorFrame_bytes_le _ _ _) ?_
  simp only [String.length_append, hid, hcode, hlimit, hconstants, websocketsMaxSize]
  omega

/-! ### Which messages get through -/

section

variable {senderId : String} {now : ℚ} {id : UuidHex}

theorem payload_message (id : UuidHex) (o : Outgoing) :
    (o.message id).payload = some o.payload := by
  cases o <;> rfl

/-- A client fills in what its op requires, so the broker only looks at the size of the payload. -/
theorem validateFrame_message (o : Outgoing) :
    (Broker.stamp (o.message id) senderId now).validateFrame (payloadBytes F) =
      if maxPayloadBytes < payloadBytes F o.payload then
        .error ⟨.payloadTooLarge, "Payload size " ++ toString (payloadBytes F o.payload) ++
          " exceeds " ++ toString maxPayloadBytes ++ " byte limit"⟩
      else .ok () := by
  cases o <;> rfl

/-- Size limits agree for a message exactly if its frame fits the broker, and either its payload is
too large once all of it is in ASCII or its DELIVER frame fits the receiver. -/
theorem sizes_agree_iff (F : FloatTexts) (senderId : String) (now : ℚ) (id : UuidHex)
    (o : Outgoing) :
    (transit F senderId now (o.message id)).Agrees ↔
      headerBytes F (o.message id) + compactBytes F o.payload ≤ maxMessageSize ∧
        (maxPayloadBytes < payloadBytes F o.payload ∨
          deliverHeaderBytes F senderId now (o.message id) + compactBytes F o.payload ≤
            websocketsMaxSize) := by
  have hframe := frameBytes_eq (F := F) (payload_message id o)
  have hdeliver : frameBytes F (Broker.stamp (o.message id) senderId now).makeDeliver =
      deliverHeaderBytes F senderId now (o.message id) + compactBytes F o.payload :=
    frameBytes_eq (payload_message id o)
  rw [← hframe, ← hdeliver, transit]
  by_cases hbroker : maxMessageSize < frameBytes F (o.message id)
  · simp [hbroker, Transit.Agrees, Nat.not_le.2 hbroker]
  · have hfits := Nat.le_of_not_lt hbroker
    simp only [hbroker, if_false, hfits, true_and, validateFrame_message]
    by_cases hlarge : maxPayloadBytes < payloadBytes F o.payload
    · have hread := Nat.not_lt.2 (refusal_bytes_le (F := F) id
        (payloadBytes_le_of_frame (payload_message id o) hfits))
      have hid : (Broker.stamp (o.message id) senderId now).id = id.text := by cases o <;> rfl
      simp only [hlarge, if_true, hid, hread, if_false, true_or, iff_true]
      rfl
    · by_cases hreceiver : websocketsMaxSize <
          frameBytes F (Broker.stamp (o.message id) senderId now).makeDeliver
      · simp [hlarge, hreceiver, Transit.Agrees]
      · simp [hlarge, hreceiver, Transit.Agrees, Nat.le_of_not_lt hreceiver]

/-- A payload over the limit as it stands in the frame is never refused: its sender is cut off. -/
theorem sender_closed_of_large {F : FloatTexts} {o : Outgoing}
    (h : maxPayloadBytes < compactBytes F o.payload) :
    transit F senderId now (o.message id) = .senderClosed := by
  have hframe := frameBytes_eq (F := F) (payload_message id o)
  have hlimits : maxPayloadBytes = maxMessageSize := rfl
  have hbroker : maxMessageSize < frameBytes F (o.message id) := by omega
  rw [transit, if_pos hbroker]

/-! ### A diff of 1 MiB -/

theorem utf8Size_flatMap_replicate {f : Char → List Char} {c : Char} (h : utf8Size (f c) = 1)
    (n : ℕ) : utf8Size ((List.replicate n c).flatMap f) = n := by
  induction n with
  | zero => rfl
  | succ n ih =>
    rw [List.replicate_succ, List.flatMap_cons, utf8Size_append, h, ih, Nat.add_comm]

/-- The float formats on whole numbers. -/
def wholeFloats : FloatTexts where
  dumps x := (toString x.num ++ ".0").toList
  compact x := (toString x.num ++ ".0").toList
  dumps_le x := by omega

def sampleId : UuidHex where
  text := "0c6fa1d2e38b4975a0c6fa1d2e38b497"
  length_eq := by decide
  isHex := by simp

/-- The result of a task with a diff of `n` characters. -/
def diffResult (n : ℕ) : Outgoing :=
  .send "orchestrator" "task.complete" [("diff", .str (String.ofList (List.replicate n 'x')))]

theorem write_diffResult {W : Writer ℚ} (hx : utf8Size (W.char 'x') = 1)
    (hkey : utf8Size (W.quoted "diff") = 6) (n : ℕ) :
    utf8Size (W.write (.obj (diffResult n).payload)) = n + utf8Size W.keySep + 10 := by
  have htext := utf8Size_flatMap_replicate hx n
  have hbraces : ('\x7b').utf8Size = 1 ∧ ('\x7d').utf8Size = 1 ∧ ('\x22').utf8Size = 1 := by decide
  have hvalue : utf8Size (W.quoted (String.ofList (List.replicate n 'x'))) = n + 2 := by
    simp only [Writer.quoted, String.toList_ofList, utf8Size_cons, utf8Size_append, utf8Size_nil,
      htext, hbraces]
    omega
  simp only [diffResult, Outgoing.payload, Writer.write, Writer.writeFields, utf8Size_cons,
    utf8Size_append, utf8Size_nil, hkey, hvalue, hbraces]
  omega

theorem compactBytes_diffResult (n : ℕ) :
    compactBytes wholeFloats (diffResult n).payload = n + 11 :=
  write_diffResult (W := compactWriter wholeFloats.compact) (by decide) (by decide) n

theorem payloadBytes_diffResult (n : ℕ) :
    payloadBytes wholeFloats (diffResult n).payload = n + 12 :=
  write_diffResult (W := asciiWriter wholeFloats.dumps) (by decide) (by decide) n

/-- A diff between 1 MiB and almost 10 MiB is admitted and closes the connection of its receiver. -/
theorem diffResult_not_agrees {n : ℕ} (hn : 1024 * 1024 ≤ n) (hn' : n ≤ 10 * 1024 * 1024 - 200) :
    ¬ (transit wholeFloats "coding-wf-1" 1 ((diffResult n).message sampleId)).Agrees := by
  have hheader : headerBytes wholeFloats ((diffResult n).message sampleId) = 115 := by
    change frameBytes wholeFloats
      (sendMessage sampleId.text "orchestrator" "task.complete" []) - 2 = 115
    decide +kernel
  have hframe := frameBytes_eq (F := wholeFloats) (payload_message sampleId (diffResult n))
  have hdeliver := frameBytes_eq (F := wholeFloats)
    (m := (Broker.stamp ((diffResult n).message sampleId) "coding-wf-1" 1).makeDeliver)
    (payload_message sampleId (diffResult n))
  rw [compactBytes_diffResult] at hframe hdeliver
  have hpayload : ¬ maxPayloadBytes < payloadBytes wholeFloats (diffResult n).payload := by
    rw [payloadBytes_diffResult]
    unfold maxPayloadBytes
    omega
  have hbroker : ¬ maxMessageSize <
      frameBytes wholeFloats ((diffResult n).message sampleId) := by
    unfold maxMessageSize
    omega
  have hreceiver : websocketsMaxSize < frameBytes wholeFloats
      (Broker.stamp ((diffResult n).message sampleId) "coding-wf-1" 1).makeDeliver := by
    unfold websocketsMaxSize
    omega
  rw [transit, if_neg hbroker]
  simp only [validateFrame_message, hpayload, if_false, hreceiver, if_true]
  exact id

theorem exists_diff_unread : ∃ o : Outgoing,
    ¬ (transit wholeFloats "coding-wf-1" 1 (o.message sampleId)).Agrees := by
  obtain ⟨n, hn, hn'⟩ : ∃ n, 1024 * 1024 ≤ n ∧ n ≤ 10 * 1024 * 1024 - 200 :=
    ⟨1024 * 1024, by omega, by omega⟩
  exact ⟨diffResult n, diffResult_not_agrees hn hn'⟩

theorem big_diff_unread : ¬ ∀ o : Outgoing,
    (transit wholeFloats "coding-wf-1" 1 (o.message sampleId)).Agrees :=
  not_forall.2 exists_diff_unread

end

/-! ### The broker -/

section

variable {E : BrokerEnv Payload} {b b' : Broker Payload} {s : String} {ws target : Ws}
  {m : NMBMessage Payload} {now : ℚ}

/-- The broker answers a message that it refuses with the error frame that `transit` measures. -/
theorem refused_frame (hh : b.handlers.lookup ws = some ⟨s, .recv⟩)
    (hs : b.step E (.frame ws (.ok m) now) = some b') {exc : FrameValidationError}
    (hexc : (Broker.stamp m s now).validateFrame E.payloadBytes = .error exc) :
    b'.sent = b.sent ++ [⟨ws, Broker.errorFrame m.id exc.code exc.message, none⟩] := by
  simp only [Broker.step, hh, Broker.dispatch, hexc] at hs
  obtain rfl := Option.some.inj hs
  rfl

/-- What a handler delivers is a message that it has read, now or before. -/
theorem deliver_origin {e : BrokerEvent Payload} {old phase : Phase Payload}
    {new : List (SentFrame Payload)} {f : SentFrame Payload}
    (ho : Broker.HandlerStep E b ws s e old phase new) (hf : f ∈ new)
    (hop : f.frame.op = .deliver) :
    (∃ m now, e = .frame ws (.ok m) now ∧ f.frame = (Broker.stamp m s now).makeDeliver) ∨
    (∃ m left, old = .publishFanout m left ∧ f.frame = m.makeDeliver) ∨
      ∃ left, old = .shutdownFanout f.frame left := by
  cases ho with
  | acked _ hack =>
    obtain rfl := List.mem_singleton.1 hf
    simp [hack] at hop
  | refused _ herror =>
    obtain rfl := List.mem_singleton.1 hf
    simp [herror] at hop
  | forward | reply =>
    obtain rfl := List.mem_singleton.1 hf
    exact Or.inl ⟨_, _, rfl, rfl⟩
  | fanout =>
    obtain rfl := List.mem_singleton.1 hf
    exact Or.inr (Or.inl ⟨_, _, rfl, rfl⟩)
  | notice =>
    obtain rfl := List.mem_singleton.1 hf
    exact Or.inr (Or.inr ⟨_, rfl⟩)
  | publish | quiet => simp at hf

/-- A DELIVER frame that a message leads to is the one that `transit` measures. -/
theorem deliver_frame (hh : b.handlers.lookup ws = some ⟨s, .recv⟩)
    (hs : b.step E (.frame ws (.ok m) now) = some b') {f : SentFrame Payload} (hf : f ∈ b'.sent)
    (hop : f.frame.op = .deliver) :
    f ∈ b.sent ∨ f.frame = (Broker.stamp m s now).makeDeliver := by
  cases Broker.route_step hs with
  | fired he => simp [BrokerEvent.socket] at he
  | served he hh' hserved ho =>
    obtain rfl := Option.some.inj he
    obtain ⟨rfl, rfl⟩ := Handler.mk.inj (Option.some.inj (hh.symm.trans hh'))
    rw [hserved.sent, List.mem_append] at hf
    rcases hf with hf | hf
    · exact Or.inl hf
    · right
      rcases deliver_origin ho hf hop with ⟨m', now', heq, hframe⟩ | ⟨_, _, hold, -⟩ | ⟨_, hold⟩
      · obtain ⟨-, hmessage, rfl⟩ := BrokerEvent.frame.inj heq
        obtain rfl := Except.ok.inj hmessage
        exact hframe
      · contradiction
      · contradiction

/-- So is one that a published message leads to. -/
theorem fanout_frame {left : List Ws}
    (hh : b.handlers.lookup ws = some ⟨s, .publishFanout (Broker.stamp m s now) left⟩)
    (hs : b.step E (.safeSend ws target) = some b') {f : SentFrame Payload} (hf : f ∈ b'.sent)
    (hop : f.frame.op = .deliver) :
    f ∈ b.sent ∨ f.frame = (Broker.stamp m s now).makeDeliver := by
  cases Broker.route_step hs with
  | fired he => simp [BrokerEvent.socket] at he
  | served he hh' hserved ho =>
    obtain rfl := Option.some.inj he
    obtain ⟨rfl, rfl⟩ := Handler.mk.inj (Option.some.inj (hh.symm.trans hh'))
    rw [hserved.sent, List.mem_append] at hf
    rcases hf with hf | hf
    · exact Or.inl hf
    · right
      rcases deliver_origin ho hf hop with ⟨_, _, heq, -⟩ | ⟨_, _, hold, hframe⟩ | ⟨_, hold⟩
      · contradiction
      · obtain ⟨rfl, -⟩ := Phase.publishFanout.inj hold
        exact hframe
      · contradiction

end

end Sizes

end NemoClaw
