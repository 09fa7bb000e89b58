import HubScope.Lib.Bytes
import HubScope.Lib.LineScanner
import Mathlib.Data.Int.Order.Basic

/-!
# Streamed answers of a hub

A streaming probe reads server-sent events as they arrive, both protocols alike up to how an event
is read. It is successful if content came and nothing went wrong before the end, and it records
when the first content was there. Which streams are successful is a property of their text: the
network may cut it up in any way.

The stream is what the reads returned, each with the milliseconds since the request. How the
payloads decode is a parameter.

## Main definitions

* `OpenAIChunk.event`, `AnthropicEvent.event` — what an event of either protocol says
* `SSEProtocol.readStream` — the result of a stream
* `SSEProtocol.payloads`, `SSEProtocol.heard` — the payloads of a text, up to the one that stops
  the reading

## Main results

* `ok_readStream_iff` — which streams are successful
* `timeless_readStream` — how the text was cut up makes no difference but in the times
* `ttft_readStream` — when the first content was there
-/

set_option autoImplicit false

namespace HubScope

open Bytes LineScanner

/-! ### Events -/

/-- The `error` field of a payload: an object with a message, a string, or anything else. -/
inductive ErrorValue
  | object (message : Bytes)
  | string (s : Bytes)
  | other
  deriving DecidableEq

/-- The readable message of an upstream error; the whole body if there is none. -/
def extractUpstreamError (decodeError : Bytes → Option ErrorValue) (body : Bytes) : Bytes :=
  match decodeError body with
  | some (.object message) => if message ≠ [] then message else body
  | some (.string s) => if s ≠ [] then s else body
  | _ => body

/-- What an event of a stream says: an error, numbers of tokens, and whether it has content. -/
structure StreamEvent where
  error : Bool
  inputTokens : Option ℤ
  outputTokens : Option ℤ
  content : Bool
  deriving DecidableEq

/-- A delta of the openai protocol. -/
structure OpenAIDelta where
  content : Bytes
  reasoningContent : Bytes

/-- A chunk of the openai protocol. The usage is the prompt's and the completion's tokens. -/
structure OpenAIChunk where
  choices : List OpenAIDelta
  usage : Option (Option ℤ × Option ℤ)
  error : Bool

/-- Reasoning counts as content. -/
def OpenAIChunk.event (chunk : OpenAIChunk) : StreamEvent where
  error := chunk.error
  inputTokens := chunk.usage.bind Prod.fst
  outputTokens := chunk.usage.bind Prod.snd
  content := chunk.choices.any fun delta => delta.content ≠ [] || delta.reasoningContent ≠ []

/-- An event of the anthropic protocol. Usages are the input's and the output's tokens. -/
structure AnthropicEvent where
  type : Bytes
  deltaText : Bytes
  deltaThinking : Bytes
  messageUsage : Option ℤ × Option ℤ
  usage : Option ℤ × Option ℤ
  error : Bool

/-- Thinking counts as content, and the usage of the event itself over that of its message. -/
def AnthropicEvent.event (e : AnthropicEvent) : StreamEvent where
  error := e.error
  inputTokens := e.usage.1.or e.messageUsage.1
  outputTokens := e.usage.2.or e.messageUsage.2
  content := e.type = text "content_block_delta" && (e.deltaText ≠ [] || e.deltaThinking ≠ [])

/-- How a protocol reads payloads: what ends the stream, and what events say. -/
structure SSEProtocol where
  done : Bytes → Bool
  decode : Bytes → Option StreamEvent
  decodeError : Bytes → Option ErrorValue

def SSEProtocol.openAI (decode : Bytes → Option OpenAIChunk)
    (decodeError : Bytes → Option ErrorValue) : SSEProtocol where
  done data := data = text "[DONE]"
  decode data := (decode data).map OpenAIChunk.event
  decodeError := decodeError

def SSEProtocol.anthropic (decode : Bytes → Option AnthropicEvent)
    (decodeError : Bytes → Option ErrorValue) : SSEProtocol where
  done _ := false
  decode data := (decode data).map AnthropicEvent.event
  decodeError := decodeError

/-! ### Reading a stream -/

/-- A failure of the connection. -/
structure ReadError where
  timeout : Bool
  message : Bytes
  deriving DecidableEq

/-- A response: its status, what the reads returned and when, and when and how they ended. -/
structure StreamResponse where
  statusCode : ℤ
  reads : List (ℤ × Bytes)
  finish : ℤ
  failure : Option ReadError
  ordered : (reads.map Prod.fst ++ [finish]).Pairwise (· ≤ ·)

/-- The bytes of a response with the times they were read. -/
def StreamResponse.timedBody (r : StreamResponse) : List (ℤ × Byte) :=
  r.reads.flatMap fun read => read.2.map (read.1, ·)

/-- The bytes of a response. -/
def StreamResponse.body (r : StreamResponse) : Bytes := r.reads.flatMap Prod.snd

/-- Why a call failed. -/
inductive ErrorSummary
  | http (status : ℤ) (message : Bytes)
  | read (timeout : Bool) (message : Bytes)
  | tooLong
  | noContent
  deriving DecidableEq

/-- The result of a call. -/
structure CallResult where
  ok : Bool
  httpStatus : ℤ
  errorSummary : Option ErrorSummary
  latencyMs : ℤ
  ttftMs : Option ℤ
  inputTokens : Option ℤ
  outputTokens : Option ℤ
  deriving DecidableEq

/-- The result without its times; whether there was a first content stays. -/
def CallResult.timeless (c : CallResult) : CallResult :=
  { c with latencyMs := 0, ttftMs := c.ttftMs.map fun _ => 0 }

/-- The state of the reading. -/
structure StreamState where
  ttft : Option ℤ
  inputTokens : Option ℤ
  outputTokens : Option ℤ
  sawContent : Bool
  streamErr : Bytes
  deriving DecidableEq

def StreamState.start : StreamState := ⟨none, none, none, false, []⟩

/-- The state without its time. -/
def StreamState.timeless (s : StreamState) : StreamState :=
  { s with ttft := s.ttft.map fun _ => 0 }

/-- The line without its carriage return. -/
def dropCR (line : Bytes) : Bytes :=
  if line.getLast? = some (byte '\r') then line.dropLast else line

/-- `scanSSE`: the payload of a line. -/
def dataOf (line : Bytes) : Option Bytes :=
  if (text "data:").isPrefixOf (dropCR line) then
    let data := trimSpace ((dropCR line).drop 5)
    if data = [] then none else some data
  else none

/-- The size of the buffer that a line has to fit in. -/
def maxLineSize : ℕ := 1024 * 1024

namespace SSEProtocol

variable (P : SSEProtocol)

/-- The state after an event without an error. -/
def absorb (latency : ℤ) (s : StreamState) (e : StreamEvent) : StreamState :=
  { s with
    inputTokens := e.inputTokens.or s.inputTokens
    outputTokens := e.outputTokens.or s.outputTokens
    ttft := if e.content then s.ttft.or (some latency) else s.ttft
    sawContent := s.sawContent || e.content }

/-- What the reading does with a payload. -/
def onData (latency : ℤ) (s : StreamState) (data : Bytes) : StreamState × Bool :=
  -- the end of a stream is looked for before the payload is decoded
  if P.done data then (s, false)
  else
    match P.decode data with
    -- a payload that does not decode is passed over
    | none => (s, true)
    | some e =>
      if e.error then
        ({ s with streamErr := extractUpstreamError P.decodeError data }, false)
      else (absorb latency s e, true)

/-- The scanner of a stream. -/
def scanner : LineScanner Byte ℤ StreamState where
  sep := byte '\n'
  limit := maxLineSize
  onLine latency s line :=
    match dataOf line with
    | none => (s, true)
    | some data => P.onData latency s data

/-- The error that a scan ended with: the reading is told of a failure of the connection only when
it did not stop before. -/
def scanErr (failure : Option ReadError) : ScanEnd ℤ → Option ErrorSummary
  | .stopped _ => none
  | .tooLong _ => some .tooLong
  | .exhausted => failure.map fun e => .read e.timeout e.message

/-- `finalizeStream`. -/
def finalizeStream (statusCode total : ℤ) (scanErr : Option ErrorSummary) (s : StreamState) :
    CallResult :=
  let error :=
    -- what the upstream said goes before how the connection ended
    if s.streamErr ≠ [] then some (.http 200 s.streamErr)
    else
      match scanErr with
      | some e => some e
      | none => if s.sawContent then none else some .noContent
  ⟨error.isNone, statusCode, error, total, s.ttft, s.inputTokens, s.outputTokens⟩

/-- `readOpenAIStream`, `readAnthropicStream`: the result of a stream. -/
def readStream (r : StreamResponse) : CallResult :=
  if r.statusCode ≠ 200 then
    ⟨false, r.statusCode,
      some (.http r.statusCode (trimSpace (extractUpstreamError P.decodeError r.body))),
      r.finish, none, none, none⟩
  else
    let (s, ended) := P.scanner.scan r.finish r.timedBody [] .start
    finalizeStream r.statusCode (ended.time r.finish) (scanErr r.failure ended) s

/-! ### What a text says -/

/-- The payload stops the reading. -/
def stops (data : Bytes) : Bool := P.done data || (P.decode data).any (·.error)

/-- The payload has content. -/
def hasContent (data : Bytes) : Bool := (P.decode data).any (·.content)

/-- The payloads of a text, up to a line that is too long. -/
def payloads (body : Bytes) : List Bytes :=
  ((lines (byte '\n') body).takeWhile fun l => l.length < maxLineSize).filterMap dataOf

/-- The payloads before the one that stops the reading. -/
def heard (body : Bytes) : List Bytes := (payloads body).takeWhile fun data => !P.stops data

/-- The payloads of lines with the times they were complete at. -/
def timedPayloads (ls : List (ℤ × Bytes)) : List (ℤ × Bytes) :=
  ls.filterMap fun l => (dataOf l.2).map (l.1, ·)

/-- The payloads before the one that stops the reading, with their times. -/
def timedHeard (r : StreamResponse) : List (ℤ × Bytes) :=
  (timedPayloads ((timedLines (byte '\n') r.finish r.timedBody []).takeWhile
    P.scanner.short)).takeWhile fun p => !P.stops p.2

/-- The state after payloads that do not stop the reading. -/
def absorbAll (s : StreamState) (ps : List (ℤ × Bytes)) : StreamState :=
  ps.foldl (fun s p => (P.decode p.2).elim s (absorb p.1 s)) s

variable {P} {r r' : StreamResponse}

/-! ### The reading by payloads -/

theorem absorbAll_cons (s : StreamState) (p : ℤ × Bytes) (ps : List (ℤ × Bytes)) :
    P.absorbAll s (p :: ps) = P.absorbAll ((P.decode p.2).elim s (absorb p.1 s)) ps := rfl

theorem absorbAll_spec (s : StreamState) (ps : List (ℤ × Bytes)) :
    (P.absorbAll s ps).streamErr = s.streamErr ∧
      (P.absorbAll s ps).sawContent = (s.sawContent || ps.any fun p => P.hasContent p.2) ∧
      (P.absorbAll s ps).ttft =
        s.ttft.or ((ps.find? fun p => P.hasContent p.2).map Prod.fst) := by
  induction ps generalizing s with
  | nil => simp [absorbAll]
  | cons p ps ih =>
    obtain ⟨herr, hsaw, httft⟩ := ih ((P.decode p.2).elim s (absorb p.1 s))
    rw [absorbAll_cons, herr, hsaw, httft, List.any_cons, List.find?_cons, hasContent]
    cases P.decode p.2 with
    | none => exact ⟨rfl, rfl, rfl⟩
    | some e =>
      cases hcontent : e.content with
      | false => simp [absorb, hcontent]
      -- the first content sets the time, a later one finds it set
      | true => cases hold : s.ttft <;> simp [absorb, hcontent, hold]

/-- The reading absorbs the payloads before the one that stops it. -/
theorem runLines_scanner (ls : List (ℤ × Bytes)) (s : StreamState) :
    runLines P.scanner.onLine ls s =
      let ps := timedPayloads ls
      let s' := P.absorbAll s (ps.takeWhile fun p => !P.stops p.2)
      match ps.find? fun p => P.stops p.2 with
      | none => (s', none)
      | some (t, data) =>
        (if P.done data then s'
          else { s' with streamErr := extractUpstreamError P.decodeError data }, some t) := by
  induction ls generalizing s with
  | nil => rfl
  | cons l ls ih =>
    obtain ⟨t, line⟩ := l
    rw [runLines, timedPayloads, List.filterMap_cons]
    cases hdata : dataOf line with
    | none =>
      -- a line that is no payload changes nothing
      have honLine : P.scanner.onLine t s line = (s, true) := by simp only [scanner, hdata]
      rw [honLine]
      exact ih s
    | some data =>
      have honLine : P.scanner.onLine t s line = P.onData t s data := by
        simp only [scanner, hdata]
      rw [honLine, Option.map_some]
      dsimp only
      rw [List.takeWhile_cons, List.find?_cons, onData, stops]
      cases hdone : P.done data with
      | true => simp [absorbAll, hdone]
      | false =>
        cases hdecode : P.decode data with
        | none =>
          refine (ih s).trans ?_
          simp only [timedPayloads, Bool.false_or, Option.any_none, Bool.not_false, if_true,
            absorbAll_cons, hdecode, Option.elim_none]
        | some e =>
          cases herror : e.error with
          | true => simp [absorbAll, hdone, herror]
          | false =>
            simp only [Bool.false_eq_true, if_false, Bool.false_or, Option.any_some, herror,
              Bool.not_false, if_true, absorbAll_cons, hdecode, Option.elim_some]
            exact ih (absorb t s e)

/-! ### Texts and times -/

theorem map_timedBody (r : StreamResponse) : r.timedBody.map Prod.snd = r.body := by
  rw [StreamResponse.timedBody, StreamResponse.body, List.map_flatMap]
  refine List.flatMap_congr fun read _ => ?_
  rw [List.map_map]
  exact List.map_id read.2

theorem map_timedPayloads (ls : List (ℤ × Bytes)) :
    (timedPayloads ls).map Prod.snd = (ls.map Prod.snd).filterMap dataOf := by
  induction ls with
  | nil => rfl
  | cons l ls ih =>
    rw [timedPayloads, List.filterMap_cons, List.map_cons, List.filterMap_cons]
    cases dataOf l.2 with
    | none => exact ih
    | some data => exact congrArg (data :: ·) ih

/-- The timed payloads are those of the text. -/
theorem map_timedPayloads_body (P : SSEProtocol) (r : StreamResponse) :
    (timedPayloads ((timedLines (byte '\n') r.finish r.timedBody []).takeWhile
      P.scanner.short)).map Prod.snd = payloads r.body := by
  rw [map_timedPayloads, payloads, ← map_timedBody, ← map_timedLines_nil (byte '\n') r.finish,
    List.takeWhile_map]
  rfl

theorem map_timedHeard (P : SSEProtocol) (r : StreamResponse) :
    (P.timedHeard r).map Prod.snd = P.heard r.body := by
  rw [heard, ← map_timedPayloads_body P r, List.takeWhile_map]
  rfl

/-! ### Results -/

/-- **The scan of a stream** by its payloads. -/
theorem scan_eq_payloads (P : SSEProtocol) (r : StreamResponse) : ∃ late,
    P.scanner.scan r.finish r.timedBody [] .start =
      let s := P.absorbAll .start (P.timedHeard r)
      match (timedPayloads ((timedLines (byte '\n') r.finish r.timedBody []).takeWhile
          P.scanner.short)).find? fun p => P.stops p.2 with
      | none =>
        (s, if (lines (byte '\n') r.body).all fun l => l.length < maxLineSize then .exhausted
          else .tooLong late)
      | some (t, data) =>
        (if P.done data then s
          else { s with streamErr := extractUpstreamError P.decodeError data }, .stopped t) := by
  have hlimit : ([] : Bytes).length < P.scanner.limit := Nat.pow_pos (n := 20) (by decide : 0 < 2)
  obtain ⟨late, hscan⟩ := LineScanner.scan_eq P.scanner r.finish r.timedBody [] hlimit .start
  refine ⟨late, hscan.trans ?_⟩
  -- whether a line is too long is a matter of the text, not of the reads
  have hall : (lines (byte '\n') r.body).all (fun l => l.length < maxLineSize) =
      (timedLines (byte '\n') r.finish r.timedBody []).all P.scanner.short := by
    rw [← map_timedBody, ← map_timedLines_nil (byte '\n') r.finish, List.all_map]
    rfl
  have hruns := runLines_scanner (P := P)
    ((timedLines (byte '\n') r.finish r.timedBody []).takeWhile P.scanner.short) .start
  dsimp only at hruns ⊢
  rw [hall, show P.scanner.sep = byte '\n' from rfl, hruns, timedHeard]
  cases (timedPayloads ((timedLines (byte '\n') r.finish r.timedBody []).takeWhile
    P.scanner.short)).find? fun p => P.stops p.2 <;> rfl

/-- The message of an error is not empty. -/
theorem extractUpstreamError_ne_nil (decodeError : Bytes → Option ErrorValue) {body : Bytes}
    (h : body ≠ []) : extractUpstreamError decodeError body ≠ [] := by
  unfold extractUpstreamError
  split
  · split_ifs with hm
    · exact hm
    · exact h
  · split_ifs with hs
    · exact hs
    · exact h
  · exact h

theorem ne_nil_of_mem_payloads {body data : Bytes} (h : data ∈ payloads body) : data ≠ [] := by
  obtain ⟨l, -, hl⟩ := List.mem_filterMap.mp h
  unfold dataOf at hl
  split_ifs at hl with hfield
  obtain ⟨hne, heq⟩ := Option.ite_none_left_eq_some.mp hl
  rwa [← Option.some.inj heq]

theorem ok_finalizeStream {status total : ℤ} {err : Option ErrorSummary} {s : StreamState} :
    (finalizeStream status total err s).ok = true ↔
      s.streamErr = [] ∧ err = none ∧ s.sawContent = true := by
  unfold finalizeStream
  by_cases hstream : s.streamErr = []
  · cases err with
    | some e => simp [hstream]
    | none => cases s.sawContent <;> simp [hstream]
  · simp [hstream]

theorem sawContent_iff (P : SSEProtocol) (r : StreamResponse) :
    (P.absorbAll .start (P.timedHeard r)).sawContent = true ↔
      ∃ data ∈ P.heard r.body, P.hasContent data = true := by
  rw [(absorbAll_spec .start (P.timedHeard r)).2.1, ← map_timedHeard]
  simp only [StreamState.start, Bool.false_or, List.any_eq_true, List.mem_map]
  constructor
  · rintro ⟨p, hp, hcontent⟩
    exact ⟨p.2, ⟨p, hp, rfl⟩, hcontent⟩
  · rintro ⟨data, ⟨p, hp, rfl⟩, hcontent⟩
    exact ⟨p, hp, hcontent⟩

theorem readStream_of_ok_status {r : StreamResponse} (h : r.statusCode = 200) : P.readStream r =
    finalizeStream r.statusCode ((P.scanner.scan r.finish r.timedBody [] .start).2.time r.finish)
      (scanErr r.failure (P.scanner.scan r.finish r.timedBody [] .start).2)
      (P.scanner.scan r.finish r.timedBody [] .start).1 := by
  rw [readStream, if_neg (not_not.mpr h)]

/-- **Which streams are successful**: those of status 200 in which content is heard, and which
then stop by the end of the stream, or go on to the end of the connection without a line that is
too long or a failure. -/
theorem ok_readStream_iff (P : SSEProtocol) (r : StreamResponse) : (P.readStream r).ok = true ↔
    r.statusCode = 200 ∧ (∃ data ∈ P.heard r.body, P.hasContent data = true) ∧
      match (payloads r.body).find? P.stops with
      | some data => P.done data = true
      | none => r.failure = none ∧ ∀ l ∈ lines (byte '\n') r.body, l.length < maxLineSize := by
  by_cases hstatus : r.statusCode = 200
  swap
  · simp [readStream, hstatus]
  obtain ⟨late, hscan⟩ := scan_eq_payloads P r
  have herr : (P.absorbAll .start (P.timedHeard r)).streamErr = [] :=
    (absorbAll_spec .start (P.timedHeard r)).1
  have hstops : (payloads r.body).find? P.stops =
      ((timedPayloads ((timedLines (byte '\n') r.finish r.timedBody []).takeWhile
        P.scanner.short)).find? fun p => P.stops p.2).map Prod.snd := by
    rw [← map_timedPayloads_body P r, List.find?_map]
    rfl
  rw [readStream_of_ok_status hstatus, ok_finalizeStream, hscan, hstops, ← sawContent_iff]
  cases hfind : (timedPayloads ((timedLines (byte '\n') r.finish r.timedBody []).takeWhile
    P.scanner.short)).find? fun p => P.stops p.2 with
  | none =>
    dsimp only [Option.map_none]
    -- nothing stops the reading: the scan ends with the text or at a line that is too long
    by_cases hall : (lines (byte '\n') r.body).all (fun l => l.length < maxLineSize) = true
    · have hshort : ∀ l ∈ lines (byte '\n') r.body, l.length < maxLineSize := by
        simpa using hall
      rw [if_pos hall, scanErr, Option.map_eq_none_iff]
      simp only [herr, hstatus, true_and, and_iff_left hshort]
      exact And.comm
    · have hlong : ¬ ∀ l ∈ lines (byte '\n') r.body, l.length < maxLineSize := by
        simpa using hall
      rw [if_neg hall, scanErr]
      simp [hlong]
  | some p =>
    obtain ⟨t, data⟩ := p
    dsimp only [Option.map_some]
    cases hdone : P.done data with
    | true => simp [herr, hstatus, scanErr]
    | false =>
      -- the payload that stops it is an error, whose message is not empty
      have hmem : data ∈ payloads r.body := by
        refine List.mem_of_find?_eq_some (p := P.stops) ?_
        rw [hstops, hfind]
        rfl
      have hne := extractUpstreamError_ne_nil P.decodeError (ne_nil_of_mem_payloads hmem)
      simp [hne]

/-! ### Times -/

theorem timeless_absorb {t t' : ℤ} {s s' : StreamState} (h : s.timeless = s'.timeless)
    (e : StreamEvent) : (absorb t s e).timeless = (absorb t' s' e).timeless := by
  obtain ⟨ttft, input, output, saw, err⟩ := s
  obtain ⟨ttft', input', output', saw', err'⟩ := s'
  simp only [StreamState.timeless, StreamState.mk.injEq] at h
  -- but for the time the two states are the same
  obtain ⟨httft, rfl, rfl, rfl, rfl⟩ := h
  cases hcontent : e.content with
  | false => simpa [absorb, StreamState.timeless, hcontent] using httft
  | true => cases ttft <;> cases ttft' <;> simp_all [absorb, StreamState.timeless]

theorem timeless_onLine (t t' : ℤ) (s s' : StreamState) (line : Bytes)
    (h : s.timeless = s'.timeless) :
    (P.scanner.onLine t s line).1.timeless = (P.scanner.onLine t' s' line).1.timeless ∧
      (P.scanner.onLine t s line).2 = (P.scanner.onLine t' s' line).2 := by
  simp only [scanner, onData]
  split
  · exact ⟨h, rfl⟩
  · rename_i data hdata
    split_ifs with hdone
    · exact ⟨h, rfl⟩
    · split
      · exact ⟨h, rfl⟩
      · rename_i e he
        split_ifs with herror
        · refine ⟨?_, rfl⟩
          have hstream (u : StreamState) : ({ u with
              streamErr := extractUpstreamError P.decodeError data } : StreamState).timeless =
                { u.timeless with streamErr := extractUpstreamError P.decodeError data } := rfl
          rw [hstream, hstream, h]
        · exact ⟨timeless_absorb h e, rfl⟩

theorem timeless_finalizeStream {status total total' : ℤ} {err : Option ErrorSummary}
    {s s' : StreamState} (h : s.timeless = s'.timeless) :
    (finalizeStream status total err s).timeless =
      (finalizeStream status total' err s').timeless := by
  obtain ⟨ttft, input, output, saw, err⟩ := s
  obtain ⟨ttft', input', output', saw', err'⟩ := s'
  simp only [StreamState.timeless, StreamState.mk.injEq] at h
  obtain ⟨httft, rfl, rfl, rfl, rfl⟩ := h
  simp [finalizeStream, CallResult.timeless, httft]

theorem scanErr_forget {failure : Option ReadError} {e e' : ScanEnd ℤ}
    (h : e.forget = e'.forget) : scanErr failure e = scanErr failure e' := by
  cases e <;> cases e' <;> first | rfl | cases h

/-- **How the network cuts a stream up makes no difference**, but in the times. -/
theorem timeless_readStream (P : SSEProtocol) (r r' : StreamResponse)
    (hstatus : r.statusCode = r'.statusCode) (hbody : r.body = r'.body)
    (hfailure : r.failure = r'.failure) :
    (P.readStream r).timeless = (P.readStream r').timeless := by
  by_cases hok : r.statusCode = 200
  · have htext : r.timedBody.map Prod.snd = r'.timedBody.map Prod.snd := by
      rw [map_timedBody, map_timedBody, hbody]
    have hscan :
        (P.scanner.scan r.finish r.timedBody [] .start).1.timeless =
            (P.scanner.scan r'.finish r'.timedBody [] .start).1.timeless ∧
          (P.scanner.scan r.finish r.timedBody [] .start).2.forget =
            (P.scanner.scan r'.finish r'.timedBody [] .start).2.forget :=
      LineScanner.scan_rel (R := fun s s' => s.timeless = s'.timeless) P.scanner r.finish rfl rfl
        timeless_onLine htext [] rfl
    obtain ⟨hstate, hended⟩ := hscan
    rw [readStream_of_ok_status hok, readStream_of_ok_status (hstatus ▸ hok), ← hstatus,
      ← hfailure, scanErr_forget hended]
    exact timeless_finalizeStream hstate
  · rw [readStream, readStream, if_pos hok, if_pos (hstatus ▸ hok), hstatus, hbody]
    rfl

theorem ttft_onLine {t : ℤ} {s : StreamState} (line : Bytes) (h : ∀ u ∈ s.ttft, u ≤ t) :
    ∀ u ∈ (P.scanner.onLine t s line).1.ttft, u ≤ t := by
  simp only [scanner, onData]
  split
  · exact h
  · split_ifs
    · exact h
    · split
      · exact h
      · split_ifs
        · exact h
        · intro u hu
          simp only [absorb] at hu
          split_ifs at hu
          · cases hold : s.ttft with
            | none =>
              rw [hold] at hu
              exact (Option.some.inj hu).ge
            | some v =>
              rw [hold] at hu
              exact h u (hold ▸ hu)
          · exact h u hu

/-- The bytes come in the order of their times, and before the end. -/
theorem sorted_timedBody (r : StreamResponse) :
    (r.timedBody.map Prod.fst ++ [r.finish]).Pairwise (· ≤ ·) := by
  obtain ⟨hreads, -, hfinish⟩ := List.pairwise_append.mp r.ordered
  -- all bytes of a read have its time
  have htime : ∀ read ∈ r.reads, ∀ t ∈ (read.2.map (read.1, ·)).map Prod.fst, t = read.1 := by
    intro read _ t ht
    obtain ⟨_, hb, rfl⟩ := List.mem_map.mp ht
    obtain ⟨_, _, rfl⟩ := List.mem_map.mp hb
    rfl
  rw [StreamResponse.timedBody, List.map_flatMap, List.pairwise_append, List.pairwise_flatMap]
  refine ⟨⟨?_, ?_⟩, List.pairwise_singleton _ _, ?_⟩
  · intro read hread
    refine List.pairwise_of_forall_mem_list fun t ht u hu => ?_
    rw [htime read hread t ht, htime read hread u hu]
  · refine (List.pairwise_map.mp hreads).imp_of_mem fun {a b} ha hb hab t ht u hu => ?_
    rw [htime a ha t ht, htime b hb u hu]
    exact hab
  · intro t ht u hu
    obtain ⟨read, hread, ht⟩ := List.mem_flatMap.mp ht
    rw [htime read hread t ht]
    exact hfinish _ (List.mem_map_of_mem hread) u hu

/-- The first content was not there after the end of the scan. -/
theorem ttft_le_time (P : SSEProtocol) (r : StreamResponse) :
    ∀ t ∈ (P.scanner.scan r.finish r.timedBody [] .start).1.ttft,
      t ≤ (P.scanner.scan r.finish r.timedBody [] .start).2.time r.finish := by
  have hsorted := sorted_timedBody r
  obtain ⟨first, hfirst⟩ : ∃ first, ∀ t ∈ r.timedBody.map Prod.fst ++ [r.finish], first ≤ t := by
    cases htimes : r.timedBody.map Prod.fst with
    | nil => exact ⟨r.finish, fun t ht => (List.mem_singleton.mp ht).ge⟩
    | cons first rest =>
      rw [htimes, List.cons_append] at hsorted
      exact ⟨first, List.forall_mem_cons.mpr ⟨le_rfl, (List.pairwise_cons.mp hsorted).1⟩⟩
  refine LineScanner.scan_invariant (I := fun t s => ∀ u ∈ s.ttft, u ≤ t) P.scanner r.finish
    (fun t t' s htt' h u hu => (h u hu).trans htt') (fun t s l h => ttft_onLine l h) hsorted hfirst
    [] ?_
  intro u hu
  cases hu

/-- The openai protocol where a payload is a delta of itself. -/
def plainOpenAI : SSEProtocol := openAI (fun data => some ⟨[⟨data, []⟩], none, false⟩) fun _ => none

/-- The anthropic protocol where a payload is a delta of itself. -/
def plainAnthropic : SSEProtocol :=
  anthropic (fun data => some ⟨text "content_block_delta", data, [], (none, none), (none, none),
    false⟩) fun _ => none

/-- A stream that comes as a whole. -/
def helloStream : StreamResponse where
  statusCode := 200
  reads := [(3, text "data: hello\n")]
  finish := 5
  failure := none
  ordered := by decide

/-- The same stream in two parts. -/
def helloStreamInTwo : StreamResponse where
  statusCode := 200
  reads := [(3, text "data: he"), (4, text "llo\n")]
  finish := 6
  failure := none
  ordered := by decide

theorem timeless_readStream_hello :
    (plainOpenAI.readStream helloStream).timeless =
      (plainOpenAI.readStream helloStreamInTwo).timeless :=
  timeless_readStream plainOpenAI helloStream helloStreamInTwo rfl (by decide) rfl

/-- **When the first content was there**: when the line of the first payload with content among
those heard was complete, which is before the call was over. -/
theorem ttft_readStream (P : SSEProtocol) (r : StreamResponse) (hok : r.statusCode = 200) :
    (P.readStream r).ttftMs = ((P.timedHeard r).find? fun p => P.hasContent p.2).map Prod.fst ∧
      ∀ t ∈ (P.readStream r).ttftMs, t ≤ (P.readStream r).latencyMs := by
  rw [readStream_of_ok_status hok]
  refine ⟨?_, ttft_le_time P r⟩
  obtain ⟨late, hscan⟩ := scan_eq_payloads P r
  have httft := (absorbAll_spec (P := P) .start (P.timedHeard r)).2.2
  change (P.scanner.scan r.finish r.timedBody [] .start).1.ttft = _
  -- what the scan returns has the time of the payloads heard, however it ended
  rw [hscan, ← Option.none_or (o := Option.map _ _)]
  refine Eq.trans ?_ httft
  dsimp only
  split
  · rfl
  · split_ifs <;> rfl

theorem ttft_readStream_hello : (plainAnthropic.readStream helloStreamInTwo).ttftMs = some 4 ∧
    ∀ t ∈ (plainAnthropic.readStream helloStreamInTwo).ttftMs,
      t ≤ (plainAnthropic.readStream helloStreamInTwo).latencyMs := by
  have h := ttft_readStream plainAnthropic helloStreamInTwo rfl
  exact ⟨h.1.trans (by decide), h.2⟩

end SSEProtocol

end HubScope
