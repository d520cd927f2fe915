import VaporForge.CloudCore.Sync
import VaporForge.CloudCore.TextParts

/-!
# Server-sent events, however they arrive

`connect_once_blocking` of `cloud-cumulus/src/device_stream.rs` reads a stream of server-sent
events line by line. The bytes of a line come in as many reads as the network makes of it,
and the limits on a line and on an event are checked as they come. The payoff is that the
reads do not matter:

> two ways of cutting the same bytes into reads deliver the same messages, end in the same
> way, and do end (`decoding_ignores_chunks`).

A line that is read from chunks is the first line of the bytes that are left
(`readLineBounded_eq`), too large or not. So the decoder over chunks is the decoder over the
bytes (`connectLoop_eq`), and that one does not know of chunks. Whether the reader is to go
on is asked twice a line; `shouldContinue i` is the answer to the `i`-th question. Parsing the
JSON text of a message is a parameter.
-/

namespace VaporForge.Cumulus

open VaporForge.CloudCore

def maxEventBytes : Nat := 4 * 1024 * 1024

/-- What one read returned. A read that returns nothing is the end of the stream. -/
abbrev Chunk := {bytes : Bytes // bytes ≠ []}

/-- What a `BufRead` will still return. -/
abbrev Reader := List Chunk

def Reader.bytes (reader : Reader) : Bytes := reader.flatMap Subtype.val

/-- `consume`: the rest of a chunk is returned again. -/
def Reader.consume (chunk : Chunk) (length : Nat) (rest : Reader) : Reader :=
  if h : chunk.val.drop length ≠ [] then ⟨chunk.val.drop length, h⟩ :: rest else rest

/-! ## Lines -/

inductive ReadLineError where
  | invalidUtf8
  | tooLarge
  deriving DecidableEq, Repr

def newline : UInt8 := 10

/-- Up to and including the first newline, or everything. -/
def lineLength (available : Bytes) : Nat :=
  match available.findIdx? (· == newline) with
  | some index => index + 1
  | none => available.length

/-- The loop of `read_line_bounded`: the bytes of the line, and what is left. -/
def readLineLoop (limit : Nat) : Reader → Bytes → Except ReadLineError (Bytes × Reader)
  | [], line => .ok (line, [])
  | chunk :: rest, line =>
    let length := lineLength chunk.val
    if line.length + length > limit then .error .tooLarge
    else
      let line' := line ++ chunk.val.take length
      if chunk.val[length - 1]? = some newline then .ok (line', Reader.consume chunk length rest)
      else readLineLoop limit rest line'

def decodeUtf8 (line : Bytes) : Except ReadLineError String :=
  match String.fromUTF8? ⟨line.toArray⟩ with
  | some text => .ok text
  | none => .error .invalidUtf8

/-- `read_line_bounded`: the line, the number of its bytes, and what is left. -/
def readLineBounded (limit : Nat) (reader : Reader) :
    Except ReadLineError (String × Nat × Reader) := do
  let (line, rest) ← readLineLoop limit reader []
  let text ← decodeUtf8 line
  return (text, line.length, rest)

/-! ## Events -/

/-- What the request says of its stream. -/
structure StreamSpec where
  eventName : String
  streamName : String
  deriving DecidableEq, Repr

inductive Connection where
  | stopped
  | disconnected (incremental : Bool)
  | error (error : BackendError) (incremental : Bool)
  deriving DecidableEq, Repr

def snapshotTooLarge : BackendError := ⟨"Cumulus device stream event exceeds 4 MiB", false⟩

def streamNotUtf8 (spec : StreamSpec) : BackendError :=
  ⟨"Cumulus " ++ spec.streamName ++ " stream is not UTF-8", true⟩

section Decoder

variable {T : Type} (spec : StreamSpec) (fromStr : String → Except String T)

def decodeFrame (event data : String) : Except BackendError (Option T) :=
  if event ≠ spec.eventName ∨ data = "" then .ok none
  else match fromStr data with
    | .ok message => .ok (some message)
    | .error error => .error ⟨"invalid Cumulus " ++ spec.streamName ++ " event: " ++ error, false⟩

/-- The variables of the loop, and what was delivered. -/
structure DecoderState (T : Type) where
  event : String
  data : String
  incremental : Bool
  frameBytes : Nat
  delivered : List T

def DecoderState.init : DecoderState T := ⟨"", "", false, 0, []⟩

/-- A line ends the connection, or leaves the decoder in a state. -/
inductive LineOutcome (T : Type) where
  | next (state : DecoderState T)
  | done (connection : Connection)

/-- The empty line, which ends an event. -/
def DecoderState.endFrame (state : DecoderState T) : LineOutcome T :=
  match decodeFrame spec fromStr state.event state.data with
  | .error error => .done (.error error state.incremental)
  | .ok none => .next { state with event := "", data := "", frameBytes := 0 }
  | .ok (some message) =>
    .next ⟨"", "", true, 0, state.delivered ++ [message]⟩

/-- A `data:` line: the lines of one event are joined by newlines. -/
def DecoderState.pushData (state : DecoderState T) (value : String) : LineOutcome T :=
  if byteLen state.data + byteLen value > maxEventBytes then
    .done (.error snapshotTooLarge state.incremental)
  else
    let separated := if state.data = "" then state.data else state.data ++ "\n"
    .next { state with data := separated ++ (stripFront " " value).getD value }

/-- What the loop does with a line it has read. -/
def DecoderState.line (state : DecoderState T) (line : String) : LineOutcome T :=
  let field := trimEndChars line ['\r', '\n']
  if field = "" then state.endFrame spec fromStr
  else match stripFront "event:" field with
    | some value => .next { state with event := trim value }
    | none =>
      match stripFront "data:" field with
      | some value => state.pushData value
      | none => .next state

/-- The checks that follow a read: a line was read, or the connection ends. -/
def DecoderState.afterRead {R : Type} (state : DecoderState T)
    (read : Except ReadLineError (String × Nat × R)) :
    Except Connection (DecoderState T × String × R) :=
  match read with
  | .error .invalidUtf8 => .error (.error (streamNotUtf8 spec) state.incremental)
  | .error .tooLarge => .error (.error snapshotTooLarge state.incremental)
  | .ok (_, 0, _) => .error (.disconnected state.incremental)
  | .ok (line, bytes, rest) =>
    if state.frameBytes + bytes > maxEventBytes then
      .error (.error snapshotTooLarge state.incremental)
    else .ok ({ state with frameBytes := state.frameBytes + bytes }, line, rest)

/-- One turn of the loop, over anything that yields lines: how it ends, or where it goes on. -/
def DecoderState.turn {R : Type} (shouldContinue : Nat → Bool) (turns : Nat)
    (state : DecoderState T) (read : Except ReadLineError (String × Nat × R)) :
    Except (Connection × DecoderState T) (DecoderState T × R) :=
  if !shouldContinue (2 * turns) then .error (.stopped, state)
  else match state.afterRead spec read with
    | .error connection => .error (connection, state)
    | .ok (state', line, rest) =>
      if !shouldContinue (2 * turns + 1) then .error (.stopped, state')
      else match state'.line spec fromStr line with
        | .next state'' => .ok (state'', rest)
        | .done connection => .error (connection, state')

/-- The loop of `connect_once_blocking`. The result is how the connection ended, and what was
delivered by then; without fuel there is none. -/
def connectLoop (shouldContinue : Nat → Bool) :
    Nat → Nat → DecoderState T → Reader → Option (Connection × List T)
  | 0, _, _, _ => none
  | fuel + 1, turns, state, reader =>
    match state.turn spec fromStr shouldContinue turns (readLineBounded maxEventBytes reader) with
    | .error (connection, state') => some (connection, state'.delivered)
    | .ok (state', rest) => connectLoop shouldContinue fuel (turns + 1) state' rest

/-- `connect_once_blocking` after the response was accepted. Each turn but the last reads at
least one byte. -/
def connectOnceBlocking (shouldContinue : Nat → Bool) (reader : Reader) :
    Option (Connection × List T) :=
  connectLoop spec fromStr shouldContinue (reader.bytes.length + 1) 0 .init reader

end Decoder

/-! ## The first line of the bytes -/

theorem lineLength_le (bytes : Bytes) : lineLength bytes ≤ bytes.length := by
  unfold lineLength
  split
  · rename_i index h
    exact (List.findIdx?_eq_some_iff_getElem.mp h).1
  · exact Nat.le_refl _

variable {a bytes : Bytes}

/-- A chunk with a newline has the end of the line. -/
theorem lineLength_append_of_mem (h : newline ∈ a) (b : Bytes) :
    lineLength (a ++ b) = lineLength a ∧ a[lineLength a - 1]? = some newline := by
  have hsome : (a.findIdx? (· == newline)).isSome := by
    rw [List.findIdx?_isSome, List.any_eq_true]
    exact ⟨newline, h, beq_self_eq_true _⟩
  obtain ⟨index, hindex⟩ := Option.isSome_iff_exists.mp hsome
  obtain ⟨hlt, hnewline, _⟩ := List.findIdx?_eq_some_iff_getElem.mp hindex
  unfold lineLength
  rw [List.findIdx?_append, hindex]
  refine ⟨rfl, ?_⟩
  show a[index]? = some newline
  rw [List.getElem?_eq_getElem hlt, eq_of_beq hnewline]

/-- A chunk without one is all line, and the line goes on. -/
theorem lineLength_append_of_notMem (h : newline ∉ a) (b : Bytes) :
    lineLength a = a.length ∧ lineLength (a ++ b) = a.length + lineLength b ∧
      a[a.length - 1]? ≠ some newline := by
  have hnone : a.findIdx? (· == newline) = none := by
    rw [List.findIdx?_eq_none_iff]
    intro x hx
    rw [beq_eq_false_iff_ne]
    exact fun heq => h (heq ▸ hx)
  unfold lineLength
  rw [List.findIdx?_append, hnone]
  refine ⟨rfl, ?_, fun hlast => h (List.mem_of_getElem? hlast)⟩
  show (match (b.findIdx? (· == newline)).map (· + a.length) with
    | some index => index + 1
    | none => (a ++ b).length) = _
  cases b.findIdx? (· == newline) with
  | none => exact List.length_append
  | some index =>
    show index + a.length + 1 = a.length + (index + 1)
    omega

theorem Reader.bytes_consume (chunk : Chunk) (length : Nat) (rest : Reader) :
    (Reader.consume chunk length rest).bytes = chunk.val.drop length ++ rest.bytes := by
  unfold Reader.consume
  split
  · rfl
  · rename_i h
    rw [not_not.mp h]
    rfl

/-- A line that is read from chunks is the first line of their bytes. The induction is over the
chunks, with the part of the line that has been read. -/
theorem readLineLoop_eq (limit : Nat) (reader : Reader) :
    ∀ line : Bytes, line.length ≤ limit →
      (readLineLoop limit reader line).map (fun out => (out.1, out.2.bytes)) =
        if line.length + lineLength reader.bytes > limit then .error .tooLarge
        else .ok (line ++ reader.bytes.take (lineLength reader.bytes),
          reader.bytes.drop (lineLength reader.bytes)) := by
  induction reader with
  | nil =>
    intro line hline
    have hfits : ¬line.length + lineLength (Reader.bytes []) > limit := Nat.not_lt.mpr hline
    rw [if_neg hfits]
    exact congrArg (fun l => Except.ok (l, [])) (List.append_nil line).symm
  | cons chunk rest ih =>
    intro line hline
    have hbytes : Reader.bytes (chunk :: rest) = chunk.val ++ Reader.bytes rest := rfl
    have hle := lineLength_le chunk.val
    rw [readLineLoop, hbytes]
    dsimp only
    by_cases hmem : newline ∈ chunk.val
    · obtain ⟨hlength, hlast⟩ := lineLength_append_of_mem hmem (Reader.bytes rest)
      rw [hlength, if_pos hlast]
      split
      · rfl
      · show Except.ok (_, Reader.bytes (Reader.consume chunk (lineLength chunk.val) rest)) =
          Except.ok _
        rw [Reader.bytes_consume, List.take_append_of_le_length hle,
          List.drop_append_of_le_length hle]
    · obtain ⟨hall, hlength, hlast⟩ := lineLength_append_of_notMem hmem (Reader.bytes rest)
      rw [hall, hlength, if_neg hlast]
      by_cases hlarge : line.length + chunk.val.length > limit
      · rw [if_pos hlarge, if_pos (by omega)]
        rfl
      · rw [if_neg hlarge, List.take_length,
          ih _ (by rw [List.length_append]; omega), List.length_append, Nat.add_assoc,
          List.append_assoc, List.take_length_add_append, List.drop_length_add_append]

/-- The first line of some bytes, read as `read_line_bounded` reads it. -/
def firstLineBounded (limit : Nat) (bytes : Bytes) :
    Except ReadLineError (String × Nat × Bytes) := do
  if lineLength bytes > limit then .error .tooLarge
  else
    let line := bytes.take (lineLength bytes)
    let text ← decodeUtf8 line
    return (text, line.length, bytes.drop (lineLength bytes))

theorem readLineBounded_eq (limit : Nat) (reader : Reader) :
    (readLineBounded limit reader).map (fun out => (out.1, out.2.1, out.2.2.bytes)) =
      firstLineBounded limit reader.bytes := by
  have hloop := readLineLoop_eq limit reader [] (Nat.zero_le _)
  rw [List.length_nil, Nat.zero_add, List.nil_append] at hloop
  unfold readLineBounded firstLineBounded
  cases hread : readLineLoop limit reader [] with
  | error e =>
    rw [hread] at hloop
    split at hloop
    · rename_i hlarge
      rw [if_pos hlarge]
      cases hloop
      rfl
    · cases hloop
  | ok out =>
    rw [hread] at hloop
    split at hloop
    · cases hloop
    · rename_i hfits
      rw [if_neg hfits]
      obtain ⟨hline, hrest⟩ := Prod.mk.inj (Except.ok.inj hloop)
      rw [← hline, ← hrest]
      show Except.map _ (decodeUtf8 out.1 >>= _) = decodeUtf8 out.1 >>= _
      cases decodeUtf8 out.1 with
      | error e => rfl
      | ok text => rfl

/-! ## The decoder over bytes -/

theorem firstLineBounded_ok {limit : Nat} {out : String × Nat × Bytes}
    (h : firstLineBounded limit bytes = .ok out) : out.2.1 + out.2.2.length = bytes.length := by
  unfold firstLineBounded at h
  split at h
  · cases h
  · have hle := lineLength_le bytes
    dsimp only at h
    cases htext : decodeUtf8 (bytes.take (lineLength bytes)) with
    | error e =>
      rw [htext] at h
      cases h
    | ok text =>
      rw [htext] at h
      cases h
      show (bytes.take (lineLength bytes)).length + (bytes.drop (lineLength bytes)).length = _
      rw [List.length_take, List.length_drop]
      omega

section Bytes

variable {T : Type} (spec : StreamSpec) (fromStr : String → Except String T)
  (shouldContinue : Nat → Bool)

theorem DecoderState.afterRead_map {R S : Type} (state : DecoderState T)
    (read : Except ReadLineError (String × Nat × R)) (f : R → S) :
    state.afterRead spec (read.map fun out => (out.1, out.2.1, f out.2.2)) =
      (state.afterRead spec read).map fun out => (out.1, out.2.1, f out.2.2) := by
  cases read with
  | error e => cases e <;> rfl
  | ok out =>
    obtain ⟨line, bytes, rest⟩ := out
    cases bytes with
    | zero => rfl
    | succ bytes =>
      show (if state.frameBytes + (bytes + 1) > maxEventBytes then _ else _) =
        Except.map _ (if state.frameBytes + (bytes + 1) > maxEventBytes then _ else _)
      split
      · rfl
      · rfl

/-- A turn does not look at what is left. -/
theorem DecoderState.turn_map {R S : Type} (turns : Nat) (state : DecoderState T)
    (read : Except ReadLineError (String × Nat × R)) (f : R → S) :
    state.turn spec fromStr shouldContinue turns
        (read.map fun out => (out.1, out.2.1, f out.2.2)) =
      (state.turn spec fromStr shouldContinue turns read).map fun out => (out.1, f out.2) := by
  unfold DecoderState.turn
  rw [DecoderState.afterRead_map]
  split
  · rfl
  · cases state.afterRead spec read with
    | error connection => rfl
    | ok out =>
      obtain ⟨state', line, rest⟩ := out
      show (if !shouldContinue (2 * turns + 1) then _ else _) =
        Except.map _ (if !shouldContinue (2 * turns + 1) then _ else _)
      split
      · rfl
      · cases state'.line spec fromStr line with
        | next state'' => rfl
        | done connection => rfl

variable {state : DecoderState T}

/-- A line that is handed on has at least one byte. -/
theorem DecoderState.afterRead_ok {R : Type} {read : Except ReadLineError (String × Nat × R)}
    {out : DecoderState T × String × R} (h : state.afterRead spec read = .ok out) :
    ∃ bytes, read = .ok (out.2.1, bytes + 1, out.2.2) := by
  cases read with
  | error e => cases e <;> cases h
  | ok line =>
    obtain ⟨text, bytes, rest⟩ := line
    cases bytes with
    | zero => cases h
    | succ bytes =>
      have h : (if state.frameBytes + (bytes + 1) > maxEventBytes then _ else _) = _ := h
      split at h
      · cases h
      · cases h
        exact ⟨bytes, rfl⟩

/-- A turn that goes on has read something. -/
theorem DecoderState.turn_ok {turns : Nat} {out : DecoderState T × Bytes}
    (h : state.turn spec fromStr shouldContinue turns (firstLineBounded maxEventBytes bytes) = .ok out) :
    out.2.length < bytes.length := by
  unfold DecoderState.turn at h
  split at h
  · cases h
  · split at h
    · cases h
    · rename_i state' line rest hafter
      obtain ⟨count, hread⟩ := state.afterRead_ok spec hafter
      have hlength : count + 1 + rest.length = bytes.length := firstLineBounded_ok hread
      split at h
      · cases h
      · split at h
        · cases h
          show rest.length < bytes.length
          omega
        · cases h

/-- The loop over bytes that are cut into lines and nothing else. -/
def bytesLoop : Nat → Nat → DecoderState T → Bytes → Option (Connection × List T)
  | 0, _, _, _ => none
  | fuel + 1, turns, state, bytes =>
    match state.turn spec fromStr shouldContinue turns (firstLineBounded maxEventBytes bytes) with
    | .error (connection, state') => some (connection, state'.delivered)
    | .ok (state', rest) => bytesLoop fuel (turns + 1) state' rest

theorem connectLoop_eq (fuel : Nat) :
    ∀ (turns : Nat) (state : DecoderState T) (reader : Reader),
      connectLoop spec fromStr shouldContinue fuel turns state reader =
        bytesLoop spec fromStr shouldContinue fuel turns state reader.bytes := by
  induction fuel with
  | zero => exact fun _ _ _ => rfl
  | succ fuel ih =>
    intro turns state reader
    rw [connectLoop, bytesLoop, ← readLineBounded_eq, DecoderState.turn_map]
    cases state.turn spec fromStr shouldContinue turns (readLineBounded maxEventBytes reader) with
    | error out => rfl
    | ok out => exact ih (turns + 1) out.1 out.2

/-- Every turn reads, so the loop ends. -/
theorem bytesLoop_ends (fuel : Nat) :
    ∀ (turns : Nat) (state : DecoderState T) (bytes : Bytes), bytes.length < fuel →
      ∃ out, bytesLoop spec fromStr shouldContinue fuel turns state bytes = some out := by
  induction fuel with
  | zero => exact fun _ _ _ h => absurd h (Nat.not_lt_zero _)
  | succ fuel ih =>
    intro turns state bytes hfuel
    rw [bytesLoop]
    cases hturn : state.turn spec fromStr shouldContinue turns
        (firstLineBounded maxEventBytes bytes) with
    | error out => exact ⟨_, rfl⟩
    | ok out =>
      have hread := state.turn_ok spec fromStr shouldContinue hturn
      exact ih (turns + 1) out.1 out.2 (by omega)

/-- The same bytes, cut into reads in two ways, are decoded to the same messages and the same
end, whatever the answers to the questions whether to go on are. -/
theorem decoding_ignores_chunks {a b : Reader} (hbytes : a.bytes = b.bytes) :
    ∃ out, connectOnceBlocking spec fromStr shouldContinue a = some out ∧
      connectOnceBlocking spec fromStr shouldContinue b = some out := by
  obtain ⟨out, hout⟩ := bytesLoop_ends spec fromStr shouldContinue (a.bytes.length + 1) 0 .init
    a.bytes (Nat.lt_succ_self _)
  refine ⟨out, ?_, ?_⟩
  · unfold connectOnceBlocking
    rw [connectLoop_eq]
    exact hout
  · unfold connectOnceBlocking
    rw [connectLoop_eq, ← hbytes]
    exact hout

end Bytes

/-- The bytes of `event:x`, `data:1` and an empty line in one read, and in two. -/
def wholeReader : Reader :=
  [⟨[101, 118, 101, 110, 116, 58, 120, 10, 100, 97, 116, 97, 58, 49, 10, 10], by decide⟩]

def cutReader : Reader :=
  [⟨[101, 118, 101, 110, 116, 58, 120, 10, 100, 97], by decide⟩,
    ⟨[116, 97, 58, 49, 10, 10], by decide⟩]

theorem cut_event_decodes :
    ∃ out, connectOnceBlocking ⟨"x", "playtime"⟩ (fun text => .ok text) (fun _ => true)
        wholeReader = some out ∧
      connectOnceBlocking ⟨"x", "playtime"⟩ (fun text => .ok text) (fun _ => true)
        cutReader = some out ∧ out = (.disconnected true, ["1"]) := by
  obtain ⟨out, hwhole, hcut⟩ := decoding_ignores_chunks ⟨"x", "playtime"⟩
    (fun text => .ok text) (fun _ => true) (show wholeReader.bytes = cutReader.bytes by decide)
  refine ⟨out, hwhole, hcut, ?_⟩
  have hout : connectOnceBlocking ⟨"x", "playtime"⟩ (fun text => .ok text) (fun _ => true)
      wholeReader = some (.disconnected true, ["1"]) := by
    decide +kernel
  exact Option.some.inj (hwhole.symm.trans hout)

end VaporForge.Cumulus
