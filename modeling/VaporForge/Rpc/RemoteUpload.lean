import Mathlib.Algebra.Ring.Nat
import VaporForge.CloudCore.TextParts
import VaporForge.Rpc.Batches

/-!
# Announcing a file to the server

`handle_begin_file_upload` of `cloud-rpc/src/adapter.rs` announces a file of an upload batch
to the Cumulus server, which answers with the blocks to transfer it in. The handler checks
the blocks one by one, resolves where each goes (`resolve_transfer_target` of `http.rs`),
and hands them to Steam. The answer is not trusted:

> the blocks that Steam gets are consecutive and cover the file exactly, and a refused answer
> leaves the adapter as it was (`begin_file_upload_covers`).

What `ureq` makes of a URL is a parameter. Where the blocks go, and with which headers, is the
subject of `RemoteCredentials`.
-/

namespace VaporForge.Rpc

open VaporForge.CloudCore
open Lib

/-! ## Messages -/

structure CloudHttpHeader where
  name : Option String
  value : Option String
  deriving DecidableEq, Repr

structure CloudFileUploadBlockDetails where
  urlHost : Option String
  urlPath : Option String
  useHttps : Option Bool
  httpMethod : Option Int
  requestHeaders : List CloudHttpHeader
  blockOffset : Option Nat
  blockLength : Option Nat
  explicitBodyData : Option Bytes
  mayParallelize : Option Bool
  deriving DecidableEq, Repr

/-- The fields of the request that are read. -/
structure CloudClientBeginFileUploadRequest where
  appId : Option Nat
  fileSize : Option Nat
  rawFileSize : Option Nat
  fileSha : Option Bytes
  timestamp : Option Nat
  filename : Option String
  platformsToSync : Option Nat
  uploadBatchId : Option Nat
  deriving DecidableEq, Repr

structure CloudClientBeginFileUploadResponse where
  encryptFile : Option Bool
  blockRequests : List CloudFileUploadBlockDetails
  deriving DecidableEq, Repr

structure CumulusTransferHeader where
  name : String
  value : String
  deriving DecidableEq, Repr

structure CumulusTransferTarget where
  urlHost : Option String
  urlPath : String
  useHttps : Option Bool
  requestHeaders : List CumulusTransferHeader
  deriving DecidableEq, Repr

structure CumulusUploadBlock where
  target : CumulusTransferTarget
  httpMethod : Int
  blockOffset : Nat
  blockLength : Nat
  mayParallelize : Bool
  deriving DecidableEq, Repr

structure CumulusDeclaredFile where
  fileId : String
  transferSize : Nat
  blockRequests : List CumulusUploadBlock
  deriving DecidableEq, Repr

/-- What is posted to `/api/v1/steam/upload-batches/{batch_id}/files`. -/
structure DeclareFile where
  batchId : Nat
  path : String
  transferSize : Nat
  rawSize : Nat
  sha1 : String
  mtime : Nat
  platformsToSync : Nat
  deriving DecidableEq, Repr

/-! ## The configured server -/

structure Endpoint where
  origin : String
  authority : String
  basePath : String
  https : Bool
  deriving DecidableEq, Repr

def Endpoint.invalid : AdapterError := .protocol "invalid cloud.cumulus.server_url"

/-- What follows the scheme. -/
def Endpoint.parseRest (origin : String) (https : Bool) (rest : String) : Result Endpoint :=
  if rest = "" ∨ containsChar rest '@' ∨ containsChar rest '?' ∨ containsChar rest '#' then
    throw Endpoint.invalid
  else
    let (authority, basePath) := match splitOnce rest '/' with
      | some (authority, path) => (authority, "/" ++ trimEndChar path '/')
      | none => (rest, "")
    if authority = "" then throw Endpoint.invalid
    else return ⟨origin, authority, basePath, https⟩

def Endpoint.parse (raw : String) : Result Endpoint :=
  let raw := trimEndChar (trim raw) '/'
  match stripFront "https://" raw with
  | some rest => Endpoint.parseRest raw true rest
  | none =>
    match stripFront "http://" raw with
    | some rest => Endpoint.parseRest raw false rest
    | none => throw (.protocol "cloud.cumulus.server_url must use http:// or https://")

def Endpoint.resolvePath (endpoint : Endpoint) (suffix : String) : String :=
  endpoint.basePath ++ suffix

/-- The settings that `CumulusClient::new` reads, without the timeouts. -/
structure CumulusSettings where
  serverUrl : String
  token : String
  steamClientId : Option Nat
  deriving DecidableEq, Repr

structure CumulusClient where
  token : String
  steamClientId : Option String
  endpoint : Endpoint
  deriving DecidableEq, Repr

def CumulusClient.new (settings : CumulusSettings) : Result CumulusClient := do
  let endpoint ← Endpoint.parse settings.serverUrl
  return ⟨settings.token, settings.steamClientId.map toString, endpoint⟩

def steamClientIdHeader : String := "x-cumulus-steam-client-id"

def CumulusClient.authHeaders (client : CumulusClient) : List CloudHttpHeader :=
  ⟨some "Authorization", some ("Bearer " ++ client.token)⟩ ::
    (client.steamClientId.map fun clientId =>
      (⟨some steamClientIdHeader, some clientId⟩ : CloudHttpHeader)).toList

/-! ## Where a block goes -/

/-- `contains(['\r', '\n'])`. -/
def hasLineBreak (s : String) : Bool := containsChar s '\r' || containsChar s '\n'

def transferHeader (header : CumulusTransferHeader) : Result CloudHttpHeader :=
  if header.name = "" ∨ hasLineBreak header.name ∨ hasLineBreak header.value then
    throw (.protocol "Cumulus returned an invalid transfer header")
  else return ⟨some header.name, some header.value⟩

structure ResolvedTransferTarget where
  authority : String
  path : String
  https : Bool
  headers : List CloudHttpHeader
  deriving DecidableEq, Repr

/-- A host that the server chose. `uriAuthority` is the authority of a URL that parses. -/
def ValidHost (uriAuthority : String → Option String) (authority : String) : Prop :=
  authority ≠ "" ∧
    (['/', '@', '?', '#', '\r', '\n'].all fun c => !containsChar authority c) = true ∧
    (uriAuthority ("https://" ++ authority ++ "/")).map (· == authority) = some true

instance instDecidableValidHost (uriAuthority : String → Option String) (authority : String) :
    Decidable (ValidHost uriAuthority authority) :=
  inferInstanceAs (Decidable (_ ∧ _ ∧ _))

def resolveTransferTarget (uriAuthority : String → Option String) (client : CumulusClient)
    (target : CumulusTransferTarget) : Result ResolvedTransferTarget := do
  refuseIf (¬['/'] <+: target.urlPath.toList ∨ ['/', '/'] <+: target.urlPath.toList)
    "Cumulus returned an invalid transfer path"
  let headers ← target.requestHeaders.mapM transferHeader
  match target.urlHost with
  | some authority =>
    refuseIf (¬ValidHost uriAuthority authority) "Cumulus returned an invalid transfer host"
    match target.useHttps with
    | none => throw (.protocol "external transfer target omitted use_https")
    | some https => return ⟨authority, target.urlPath, https, headers⟩
  | none =>
    refuseIf target.useHttps.isSome "relative transfer target supplied use_https"
    return ⟨client.endpoint.authority, client.endpoint.resolvePath target.urlPath,
      client.endpoint.https, headers ++ client.authHeaders⟩

/-! ## The blocks -/

def httpMethodPut : Int := 4

section Blocks

variable (uriAuthority : String → Option String) (client : CumulusClient)
  (transferSize blockCount : Nat)

/-- One turn of the loop over the server's blocks: the end of the block and what Steam gets. -/
def checkBlock (expectedOffset : Nat) (block : CumulusUploadBlock) :
    Result (Nat × CloudFileUploadBlockDetails) := do
  refuseIf (block.httpMethod ≠ httpMethodPut) "Cumulus returned a non-PUT upload block"
  refuseIf (block.blockOffset ≠ expectedOffset) "Cumulus upload blocks are not contiguous"
  let blockEnd := expectedOffset + block.blockLength
  refuseIf (blockEnd > 0xffffffffffffffff) "Cumulus upload block overflow"
  refuseIf (blockEnd > transferSize ∨ (transferSize > 0 ∧ block.blockLength = 0) ∨
    (transferSize = 0 ∧ blockCount ≠ 1)) "Cumulus returned an invalid upload block length"
  let target ← resolveTransferTarget uriAuthority client block.target
  return (blockEnd,
    { urlHost := some target.authority
      urlPath := some target.path
      useHttps := some target.https
      httpMethod := some block.httpMethod
      requestHeaders := target.headers
      blockOffset := some block.blockOffset
      blockLength := some block.blockLength
      explicitBodyData := none
      mayParallelize := some block.mayParallelize })

/-- The loop: the offset it ends at and the blocks for Steam. -/
def checkBlocks : Nat → List CumulusUploadBlock → Result (Nat × List CloudFileUploadBlockDetails)
  | expectedOffset, [] => return (expectedOffset, [])
  | expectedOffset, block :: blocks => do
    let (blockEnd, details) ← checkBlock uriAuthority client transferSize blockCount
      expectedOffset block
    let (finalOffset, rest) ← checkBlocks blockEnd blocks
    return (finalOffset, details :: rest)

end Blocks

/-! ## The handler -/

def bytesToHex (bytes : Bytes) : String :=
  String.ofList (bytes.flatMap fun byte =>
    [Nat.digitChar (byte.toNat / 16), Nat.digitChar (byte.toNat % 16)])

def CloudClientBeginFileUploadRequest.rawSize (request : CloudClientBeginFileUploadRequest) :
    Nat :=
  (request.rawFileSize.or request.fileSize).getD 0

def CloudClientBeginFileUploadRequest.transferSize
    (request : CloudClientBeginFileUploadRequest) : Nat :=
  let reported := request.fileSize.getD 0
  if reported = 0 then request.rawSize else reported

/-- What the handler asks of the server: the batch the file belongs to, and the file. -/
def declareFile (state : AdapterState) (request : CloudClientBeginFileUploadRequest) :
    Result DeclareFile := do
  let appId ← required request.appId "appid"
  let path ← required request.filename "filename"
  let batchId ← findBatchId state appId request.uploadBatchId
  match state.batches.lookup batchId with
  | none => throw (.protocol "unknown upload batch")
  | some batch =>
    refuseIf (path ∉ batch.uploadPaths) ("file was not listed in BeginAppUploadBatch: " ++ path)
    let sha1 := bytesToHex (← required request.fileSha "file_sha")
    refuseIf (sha1.length ≠ 40) "file_sha is not a SHA-1"
    return { batchId, path, sha1
             transferSize := request.transferSize
             rawSize := request.rawSize
             mtime := request.timestamp.getD 0
             platformsToSync := request.platformsToSync.getD 0xffffffff }

/-- The checks of the server's answer. -/
def acceptDeclared (uriAuthority : String → Option String) (client : CumulusClient)
    (transferSize : Nat) (declared : CumulusDeclaredFile) :
    Result (List CloudFileUploadBlockDetails) := do
  refuseIf (declared.transferSize ≠ transferSize) "Cumulus changed the declared transfer size"
  refuseIf (declared.fileId = "") "Cumulus returned an empty file id"
  refuseIf (declared.blockRequests = []) "Cumulus returned no upload blocks"
  let (finalOffset, blocks) ← checkBlocks uriAuthority client transferSize
    declared.blockRequests.length 0 declared.blockRequests
  refuseIf (finalOffset ≠ transferSize) "Cumulus upload blocks do not cover the transfer"
  return blocks

/-- Every block's target is registered, the `i`-th at `clock i`. -/
def registerTargets (clock : Nat → Nat) (scope : CloudStateScope)
    (blocks : List CloudFileUploadBlockDetails) (targets : List IssuedTransferTarget) :
    List IssuedTransferTarget :=
  blocks.zipIdx.foldl (fun targets e => TransferTargetRegistry.register targets (clock e.2) scope
    (e.1.urlHost.getD "") (e.1.urlPath.getD "")) targets

def recordFile (path fileId : String) (batch : BatchState) : BatchState :=
  { batch with files := batch.files.insert path fileId }

/-- `handle_begin_file_upload`. `post` is the server: its answer, or why there is none. -/
def handleBeginFileUpload (uriAuthority : String → Option String) (client : CumulusClient)
    (post : DeclareFile → Result CumulusDeclaredFile) (clock : Nat → Nat)
    (request : CloudClientBeginFileUploadRequest) : Handler CloudClientBeginFileUploadResponse := do
  let state ← Effect.get
  let file ← Effect.lift (declareFile state request)
  let declared ← Effect.lift (post file)
  let blocks ← Effect.lift (acceptDeclared uriAuthority client file.transferSize declared)
  Effect.modify fun state =>
    { state with transferTargets := registerTargets clock state.scope blocks state.transferTargets }
  Effect.modify fun state =>
    let batches := state.batches.adjust file.batchId (recordFile file.path declared.fileId)
    { state with batches }
  return ⟨some false, blocks⟩

/-! ## What a checked block is -/

section Checks

variable {uriAuthority : String → Option String} {client : CumulusClient}
  {transferSize blockCount : Nat}

/-- What Steam gets for a block whose target is resolved. -/
def blockDetails (block : CumulusUploadBlock) (target : ResolvedTransferTarget) :
    CloudFileUploadBlockDetails :=
  ⟨some target.authority, some target.path, some target.https, some block.httpMethod,
    target.headers, some block.blockOffset, some block.blockLength, none,
    some block.mayParallelize⟩

/-- What an accepted block satisfies, and how Steam's block comes from it. -/
theorem checkBlock_ok {offset : Nat} {block : CumulusUploadBlock}
    {out : Nat × CloudFileUploadBlockDetails}
    (h : checkBlock uriAuthority client transferSize blockCount offset block = .ok out) :
    block.blockOffset = offset ∧ out.1 = offset + block.blockLength ∧ out.1 ≤ transferSize ∧
      (0 < transferSize → 0 < block.blockLength) ∧ (transferSize = 0 → blockCount = 1) ∧
      ∃ target, resolveTransferTarget uriAuthority client block.target = .ok target ∧
        out.2 = blockDetails block target := by
  obtain ⟨_, _, h⟩ := Result.bind_ok h
  obtain ⟨_, hoffset, h⟩ := Result.bind_ok h
  obtain ⟨_, _, h⟩ := Result.bind_ok h
  obtain ⟨_, hlength, h⟩ := Result.bind_ok h
  obtain ⟨target, htarget, h⟩ := Result.bind_ok h
  have hoffset := not_not.mp (refuseIf_ok hoffset)
  have hlength := refuseIf_ok hlength
  cases h
  exact ⟨hoffset, rfl, by omega, by omega, by omega, target, htarget, rfl⟩

/-- Steam's block for a block of the server. -/
def HandedOver (uriAuthority : String → Option String) (client : CumulusClient)
    (block : CumulusUploadBlock) (details : CloudFileUploadBlockDetails) : Prop :=
  ∃ target, resolveTransferTarget uriAuthority client block.target = .ok target ∧
    details = blockDetails block target

/-- Each block starts where the one before it ends, from `start` to `stop`. -/
def Consecutive : Nat → List CloudFileUploadBlockDetails → Nat → Prop
  | start, [], stop => start = stop
  | start, block :: blocks, stop =>
    ∃ length, block.blockOffset = some start ∧ block.blockLength = some length ∧
      Consecutive (start + length) blocks stop

/-- The loop, from any offset on: it is the induction over the server's list that carries the
offset from block to block. -/
theorem checkBlocks_ok (blocks : List CumulusUploadBlock) :
    ∀ {offset : Nat} {out : Nat × List CloudFileUploadBlockDetails},
      checkBlocks uriAuthority client transferSize blockCount offset blocks = .ok out →
      Consecutive offset out.2 out.1 ∧
        List.Forall₂ (HandedOver uriAuthority client) blocks out.2 ∧
        (∀ block ∈ blocks, 0 < transferSize → 0 < block.blockLength) ∧
        (blocks ≠ [] → transferSize = 0 → blockCount = 1) := by
  induction blocks with
  | nil =>
    intro offset out h
    cases h
    exact ⟨rfl, .nil, by simp, fun h => absurd rfl h⟩
  | cons block blocks ih =>
    intro offset out h
    obtain ⟨⟨blockEnd, details⟩, hblock, h⟩ := Result.bind_ok h
    obtain ⟨⟨finalOffset, rest⟩, hrest, h⟩ := Result.bind_ok h
    cases h
    obtain ⟨hoffset, hend, _, hlength, hcount, hhanded⟩ := checkBlock_ok hblock
    obtain ⟨hconsecutive, hall, hlengths, _⟩ := ih hrest
    obtain ⟨target, htarget, hdetails⟩ := hhanded
    have hdetails : details = blockDetails block target := hdetails
    refine ⟨⟨block.blockLength, ?_, ?_, ?_⟩, .cons ⟨target, htarget, hdetails⟩ hall, ?_, ?_⟩
    · rw [hdetails, ← hoffset]
      rfl
    · rw [hdetails]
      rfl
    · have hend : blockEnd = offset + block.blockLength := hend
      rw [← hend]
      exact hconsecutive
    · exact List.forall_mem_cons.mpr ⟨hlength, hlengths⟩
    · exact fun _ => hcount

variable {blocks : List CloudFileUploadBlockDetails} {start stop : Nat}

/-- What the handler accepts of the server. -/
theorem acceptDeclared_ok {declared : CumulusDeclaredFile}
    (h : acceptDeclared uriAuthority client transferSize declared = .ok blocks) :
    Consecutive 0 blocks transferSize ∧
      List.Forall₂ (HandedOver uriAuthority client) declared.blockRequests blocks ∧
      (∀ block ∈ declared.blockRequests, 0 < transferSize → 0 < block.blockLength) ∧
      (transferSize = 0 → blocks.length = 1) := by
  obtain ⟨_, _, h⟩ := Result.bind_ok h
  obtain ⟨_, _, h⟩ := Result.bind_ok h
  obtain ⟨_, hnonempty, h⟩ := Result.bind_ok h
  obtain ⟨⟨finalOffset, out⟩, hblocks, h⟩ := Result.bind_ok h
  obtain ⟨_, hfinal, h⟩ := Result.bind_ok h
  cases h
  obtain ⟨hconsecutive, hall, hlengths, hcount⟩ := checkBlocks_ok _ hblocks
  have hfinal : finalOffset = transferSize := not_not.mp (refuseIf_ok hfinal)
  refine ⟨hfinal ▸ hconsecutive, hall, hlengths, fun hzero => ?_⟩
  rw [← hall.length_eq]
  exact hcount (refuseIf_ok hnonempty) hzero

end Checks

/-! ## The blocks cover the file -/

/-- Where a block ends. -/
def CloudFileUploadBlockDetails.stop (block : CloudFileUploadBlockDetails) : Nat :=
  block.blockOffset.getD 0 + block.blockLength.getD 0

/-- A partition of the bytes of a file into blocks. -/
structure Covers (size : Nat) (blocks : List CloudFileUploadBlockDetails) : Prop where
  consecutive : Consecutive 0 blocks size
  apart : blocks.Pairwise fun a b => a.stop ≤ b.blockOffset.getD 0
  total : (blocks.map fun block => block.blockLength.getD 0).sum = size
  nonempty : 0 < size → ∀ block ∈ blocks, block.blockLength ≠ some 0
  single : size = 0 → blocks.length = 1

theorem Consecutive.le (h : Consecutive start blocks stop) :
    ∀ b ∈ blocks, start ≤ b.blockOffset.getD 0 := by
  induction blocks generalizing start with
  | nil => exact fun b hb => absurd hb List.not_mem_nil
  | cons block blocks ih =>
    obtain ⟨length, hoffset, _, hrest⟩ := h
    intro b hb
    rcases List.mem_cons.mp hb with rfl | hb
    · rw [hoffset]
      exact Nat.le_refl _
    · exact Nat.le_trans (Nat.le_add_right _ _) (ih hrest b hb)

theorem Consecutive.apart (h : Consecutive start blocks stop) :
    blocks.Pairwise fun a b => a.stop ≤ b.blockOffset.getD 0 := by
  induction blocks generalizing start with
  | nil => exact .nil
  | cons block blocks ih =>
    obtain ⟨length, hoffset, hlength, hrest⟩ := h
    refine .cons (fun b hb => ?_) (ih hrest)
    have hle := hrest.le b hb
    unfold CloudFileUploadBlockDetails.stop
    rw [hoffset, hlength]
    exact hle

theorem Consecutive.total (h : Consecutive start blocks stop) :
    start + (blocks.map fun block => block.blockLength.getD 0).sum = stop := by
  induction blocks generalizing start with
  | nil => exact h
  | cons block blocks ih =>
    obtain ⟨length, _, hlength, hrest⟩ := h
    have htotal := ih hrest
    rw [List.map_cons, List.sum_cons, hlength]
    show start + (length + _) = stop
    omega

/-- What is posted has the size that the request asks for. -/
theorem declareFile_transferSize {state : AdapterState}
    {request : CloudClientBeginFileUploadRequest} {file : DeclareFile}
    (h : declareFile state request = .ok file) : file.transferSize = request.transferSize := by
  obtain ⟨_, _, h⟩ := Result.bind_ok h
  obtain ⟨_, _, h⟩ := Result.bind_ok h
  obtain ⟨_, _, h⟩ := Result.bind_ok h
  split at h
  · cases h
  · obtain ⟨_, _, h⟩ := Result.bind_ok h
    obtain ⟨_, _, h⟩ := Result.bind_ok h
    obtain ⟨_, _, h⟩ := Result.bind_ok h
    cases h
    rfl

section Handler

variable (uriAuthority : String → Option String) (client : CumulusClient)
  (post : DeclareFile → Result CumulusDeclaredFile) (clock : Nat → Nat)
  (request : CloudClientBeginFileUploadRequest) (state : AdapterState)

/-- What the handler reads before it writes: the file it posts, and Steam's blocks. -/
def preparedBlocks : Result (List CloudFileUploadBlockDetails) := do
  let file ← declareFile state request
  let declared ← post file
  acceptDeclared uriAuthority client file.transferSize declared

/-- The answer is decided before the first write, so an error comes before it too. -/
theorem handleBeginFileUpload_eq :
    (∀ blocks, preparedBlocks uriAuthority client post request state = .ok blocks →
      (handleBeginFileUpload uriAuthority client post clock request state).1 =
        .ok ⟨some false, blocks⟩) ∧
    ∀ e, preparedBlocks uriAuthority client post request state = .error e →
      handleBeginFileUpload uriAuthority client post clock request state = (.error e, state) := by
  unfold preparedBlocks handleBeginFileUpload
  rw [Effect.get_bind]
  cases declareFile state request with
  | error e => exact ⟨fun _ h => (nomatch h), fun _ h => by cases h; rfl⟩
  | ok file =>
    rw [Effect.lift_ok_bind]
    show (∀ blocks, (post file >>= _) = _ → _) ∧ ∀ e, (post file >>= _) = _ → _
    cases post file with
    | error e => exact ⟨fun _ h => (nomatch h), fun _ h => by cases h; rfl⟩
    | ok declared =>
      rw [Effect.lift_ok_bind]
      show (∀ blocks, acceptDeclared uriAuthority client file.transferSize declared = _ → _) ∧
        ∀ e, acceptDeclared uriAuthority client file.transferSize declared = _ → _
      cases acceptDeclared uriAuthority client file.transferSize declared with
      | error e => exact ⟨fun _ h => (nomatch h), fun _ h => by cases h; rfl⟩
      | ok blocks => exact ⟨fun _ h => by cases h; rfl, fun _ h => (nomatch h)⟩

/-- An answer consists of the prepared blocks. -/
theorem preparedBlocks_of_reply {reply : CloudClientBeginFileUploadResponse}
    (h : (handleBeginFileUpload uriAuthority client post clock request state).1 = .ok reply) :
    preparedBlocks uriAuthority client post request state = .ok reply.blockRequests := by
  obtain ⟨hok, herror⟩ := handleBeginFileUpload_eq uriAuthority client post clock request state
  cases hprepared : preparedBlocks uriAuthority client post request state with
  | error e =>
    rw [herror e hprepared] at h
    cases h
  | ok blocks =>
    rw [hok blocks hprepared] at h
    cases h
    rfl

/-- Steam's blocks cover the transfer, for every answer of the server and every request; and a
handler that fails has changed nothing. -/
theorem begin_file_upload_covers :
    (∀ reply, (handleBeginFileUpload uriAuthority client post clock request state).1 = .ok reply →
      Covers request.transferSize reply.blockRequests) ∧
    ∀ e, (handleBeginFileUpload uriAuthority client post clock request state).1 = .error e →
      (handleBeginFileUpload uriAuthority client post clock request state).2 = state := by
  obtain ⟨hok, herror⟩ := handleBeginFileUpload_eq uriAuthority client post clock request state
  refine ⟨fun reply h => ?_, fun e h => ?_⟩
  · have hprepared := preparedBlocks_of_reply uriAuthority client post clock request state h
    obtain ⟨file, hfile, hrest⟩ := Result.bind_ok hprepared
    obtain ⟨declared, _, haccept⟩ := Result.bind_ok hrest
    obtain ⟨hconsecutive, hall, hlengths, hsingle⟩ := acceptDeclared_ok haccept
    rw [declareFile_transferSize hfile] at hconsecutive hlengths hsingle
    refine ⟨hconsecutive, hconsecutive.apart, ?_, fun hpos block hblock => ?_, hsingle⟩
    · have htotal := hconsecutive.total
      omega
    · obtain ⟨i, hi, rfl⟩ := List.getElem_of_mem hblock
      have hi' : i < declared.blockRequests.length := by rw [hall.length_eq]; exact hi
      obtain ⟨target, _, hdetails⟩ := hall.get hi' hi
      have hdetails : reply.blockRequests[i] = blockDetails declared.blockRequests[i] target :=
        hdetails
      have hlength := hlengths _ (List.getElem_mem hi') hpos
      intro hzero
      rw [hdetails] at hzero
      have hzero : declared.blockRequests[i].blockLength = 0 := Option.some.inj hzero
      omega
  · cases hprepared : preparedBlocks uriAuthority client post request state with
    | error e' => rw [herror e' hprepared]
    | ok blocks =>
      rw [hok blocks hprepared] at h
      cases h

end Handler

end VaporForge.Rpc
