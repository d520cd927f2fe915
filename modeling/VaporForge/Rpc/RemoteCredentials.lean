import VaporForge.Rpc.RemoteUpload

/-!
# The credentials stay at home

A block of an upload goes to the configured server or to a host that the server named. Only
the first kind carries the account's token and client id.

> With another token and another client id the answer that Steam gets is another one only in
> blocks for the configured server, under its base path; and no header of the server can
> break out of its line (`credentials_stay_home`).

This is about two runs, so each function on the way has a lemma that relates its two results
(`Result.Rel`): the same error, or values that differ in such blocks only.
-/

namespace VaporForge.Rpc

open VaporForge.CloudCore
open Lib

/-! ## What may differ -/

/-- A block that goes to the configured server, under its base path. -/
def GoesHome (endpoint : Endpoint) (block : CloudFileUploadBlockDetails) : Prop :=
  block.urlHost = some endpoint.authority ∧
    ∃ suffix, block.urlPath = some (endpoint.basePath ++ suffix) ∧ ['/'] <+: suffix.toList

/-- Equal, or both for the configured server. -/
def SameAbroad (endpoint : Endpoint) (block block' : CloudFileUploadBlockDetails) : Prop :=
  block = block' ∨ (GoesHome endpoint block ∧ GoesHome endpoint block')

/-- Both fail in the same way, or both succeed with values that `R` relates. -/
def Result.Rel {α : Type} (R : α → α → Prop) : Result α → Result α → Prop
  | .ok a, .ok b => R a b
  | .error e, .error e' => e = e'
  | _, _ => False

section Rel

variable {α β : Type} {R : α → α → Prop} {S : β → β → Prop} {x y : Result α}

theorem Result.Rel.bind {f g : α → Result β} (h : Result.Rel R x y)
    (hfg : ∀ a b, R a b → Result.Rel S (f a) (g b)) : Result.Rel S (x >>= f) (y >>= g) := by
  cases x with
  | error e =>
    cases y with
    | error e' => exact h
    | ok b => exact h.elim
  | ok a =>
    cases y with
    | error e' => exact h.elim
    | ok b => exact hfg a b h

theorem Result.Rel.map {f : α → β} (h : Result.Rel R x y) (hf : ∀ a b, R a b → S (f a) (f b)) :
    Result.Rel S (x.map f) (y.map f) := by
  cases x with
  | error e =>
    cases y with
    | error e' => exact h
    | ok b => exact h.elim
  | ok a =>
    cases y with
    | error e' => exact h.elim
    | ok b => exact hf a b h

theorem Result.Rel.refl (h : ∀ a, R a a) (x : Result α) : Result.Rel R x x := by
  cases x with
  | error e => exact rfl
  | ok a => exact h a

end Rel

/-- A check that passes is known to have passed. -/
theorem refuseIf_rel {c : Prop} [Decidable c] {message : String} :
    Result.Rel (fun _ _ => ¬c) (refuseIf c message) (refuseIf c message) := by
  cases h : refuseIf c message with
  | error e => exact rfl
  | ok u => exact refuseIf_ok h

/-- What can differ between the targets that two clients of one server resolve: the headers
of one that goes home. -/
def SameTarget (endpoint : Endpoint) (a b : ResolvedTransferTarget) : Prop :=
  a = b ∨ ∃ suffix : String, ['/'] <+: suffix.toList ∧
    a.authority = endpoint.authority ∧ b.authority = endpoint.authority ∧
    a.path = endpoint.basePath ++ suffix ∧ b.path = endpoint.basePath ++ suffix

section TwoRuns

variable {uriAuthority : String → Option String} {client client' : CumulusClient}
  (hsame : client'.endpoint = client.endpoint)

include hsame

theorem resolveTransferTarget_rel (target : CumulusTransferTarget) :
    Result.Rel (SameTarget client.endpoint) (resolveTransferTarget uriAuthority client target)
      (resolveTransferTarget uriAuthority client' target) := by
  unfold resolveTransferTarget
  refine refuseIf_rel.bind fun _ _ hpath => ?_
  have hslash : ['/'] <+: target.urlPath.toList := not_not.mp (not_or.mp hpath).1
  refine (Result.Rel.refl (R := Eq) (fun _ => rfl) _).bind fun headers _ hheaders => ?_
  cases hheaders
  cases target.urlHost with
  | some authority =>
    -- the server chose the host: nothing here reads the client
    exact Result.Rel.refl (fun _ => .inl rfl) _
  | none =>
    refine refuseIf_rel.bind fun _ _ _ => .inr ⟨target.urlPath, hslash, rfl, ?_, rfl, ?_⟩
    · show client'.endpoint.authority = client.endpoint.authority
      rw [hsame]
    · show client'.endpoint.resolvePath target.urlPath = _
      rw [hsame]
      rfl

theorem checkBlock_rel (transferSize blockCount offset : Nat) (block : CumulusUploadBlock) :
    Result.Rel (fun a b => a.1 = b.1 ∧ SameAbroad client.endpoint a.2 b.2)
      (checkBlock uriAuthority client transferSize blockCount offset block)
      (checkBlock uriAuthority client' transferSize blockCount offset block) := by
  unfold checkBlock
  refine refuseIf_rel.bind fun _ _ _ => ?_
  refine refuseIf_rel.bind fun _ _ _ => ?_
  refine refuseIf_rel.bind fun _ _ _ => ?_
  refine refuseIf_rel.bind fun _ _ _ => ?_
  refine (resolveTransferTarget_rel hsame block.target).bind fun a b hab => ⟨rfl, ?_⟩
  rcases hab with rfl | ⟨suffix, hslash, ha, hb, hpath, hpath'⟩
  · exact .inl rfl
  · exact .inr ⟨⟨congrArg some ha, suffix, congrArg some hpath, hslash⟩,
      ⟨congrArg some hb, suffix, congrArg some hpath', hslash⟩⟩

theorem checkBlocks_rel (transferSize blockCount : Nat) (blocks : List CumulusUploadBlock) :
    ∀ offset, Result.Rel
      (fun a b => a.1 = b.1 ∧ List.Forall₂ (SameAbroad client.endpoint) a.2 b.2)
      (checkBlocks uriAuthority client transferSize blockCount offset blocks)
      (checkBlocks uriAuthority client' transferSize blockCount offset blocks) := by
  induction blocks with
  | nil => exact fun offset => ⟨rfl, .nil⟩
  | cons block blocks ih =>
    intro offset
    unfold checkBlocks
    refine (checkBlock_rel hsame transferSize blockCount offset block).bind fun a b hab => ?_
    obtain ⟨hend, hdetails⟩ := hab
    obtain ⟨blockEnd, details⟩ := a
    obtain ⟨blockEnd', details'⟩ := b
    cases (hend : blockEnd = blockEnd')
    refine (ih blockEnd).bind fun c d hcd => ?_
    exact ⟨hcd.1, .cons hdetails hcd.2⟩

theorem acceptDeclared_rel (transferSize : Nat) (declared : CumulusDeclaredFile) :
    Result.Rel (List.Forall₂ (SameAbroad client.endpoint))
      (acceptDeclared uriAuthority client transferSize declared)
      (acceptDeclared uriAuthority client' transferSize declared) := by
  unfold acceptDeclared
  refine refuseIf_rel.bind fun _ _ _ => ?_
  refine refuseIf_rel.bind fun _ _ _ => ?_
  refine refuseIf_rel.bind fun _ _ _ => ?_
  refine (checkBlocks_rel hsame transferSize _ _ 0).bind fun a b hab => ?_
  obtain ⟨finalOffset, blocks⟩ := a
  obtain ⟨finalOffset', blocks'⟩ := b
  cases (hab.1 : finalOffset = finalOffset')
  exact refuseIf_rel.bind fun _ _ _ => hab.2

end TwoRuns

/-! ## The headers of the server -/

/-- A header of the server that may be passed on. -/
def CumulusTransferHeader.Clean (header : CumulusTransferHeader) : Prop :=
  ∀ c ∈ ['\r', '\n'], ¬containsChar header.name c ∧ ¬containsChar header.value c

theorem transferHeader_ok {header : CumulusTransferHeader} {out : CloudHttpHeader}
    (h : transferHeader header = .ok out) :
    header.Clean ∧ out = ⟨some header.name, some header.value⟩ := by
  unfold transferHeader at h
  split at h
  · cases h
  · rename_i hclean
    cases h
    refine ⟨?_, rfl⟩
    rw [not_or, not_or] at hclean
    obtain ⟨_, hname, hvalue⟩ := hclean
    simp only [hasLineBreak, Bool.or_eq_true, not_or] at hname hvalue
    intro c hc
    rcases List.mem_cons.mp hc with rfl | hc
    · exact ⟨hname.1, hvalue.1⟩
    · rw [List.mem_singleton.mp hc]
      exact ⟨hname.2, hvalue.2⟩

/-- The headers that are passed on are the server's, in its order. -/
theorem mapM_transferHeader_ok {headers : List CumulusTransferHeader}
    {out : List CloudHttpHeader} (h : headers.mapM transferHeader = .ok out) :
    (∀ header ∈ headers, header.Clean) ∧
      out = headers.map fun header => ⟨some header.name, some header.value⟩ := by
  induction headers generalizing out with
  | nil =>
    cases h
    exact ⟨by simp, rfl⟩
  | cons header headers ih =>
    rw [List.mapM_cons] at h
    obtain ⟨first, hfirst, h⟩ := Result.bind_ok h
    obtain ⟨rest, hrest, h⟩ := Result.bind_ok h
    cases h
    obtain ⟨hclean, rfl⟩ := transferHeader_ok hfirst
    obtain ⟨hall, rfl⟩ := ih hrest
    exact ⟨List.forall_mem_cons.mpr ⟨hclean, hall⟩, rfl⟩

/-- The headers of a block that Steam gets: those of the server, all clean, and behind them the
client's own if the block goes home. -/
def HeadersOf (client : CumulusClient) (block : CumulusUploadBlock)
    (details : CloudFileUploadBlockDetails) : Prop :=
  (∀ header ∈ block.target.requestHeaders, header.Clean) ∧
    details.requestHeaders =
      (block.target.requestHeaders.map fun header => ⟨some header.name, some header.value⟩) ++
        if block.target.urlHost.isNone then client.authHeaders else []

theorem HandedOver.headersOf {uriAuthority : String → Option String} {client : CumulusClient}
    {block : CumulusUploadBlock} {details : CloudFileUploadBlockDetails}
    (h : HandedOver uriAuthority client block details) : HeadersOf client block details := by
  obtain ⟨target, htarget, rfl⟩ := h
  obtain ⟨_, _, h⟩ := Result.bind_ok htarget
  obtain ⟨headers, hheaders, h⟩ := Result.bind_ok h
  obtain ⟨hclean, rfl⟩ := mapM_transferHeader_ok hheaders
  refine ⟨hclean, ?_⟩
  show target.headers = _
  cases hhost : block.target.urlHost with
  | some authority =>
    rw [hhost] at h
    obtain ⟨_, _, h⟩ := Result.bind_ok h
    split at h
    · cases h
    · cases h
      exact (List.append_nil _).symm
  | none =>
    rw [hhost] at h
    obtain ⟨_, _, h⟩ := Result.bind_ok h
    cases h
    rfl

/-! ## Two configurations -/

/-- The handler as `execute_rpc` calls it, with a client made from the settings. -/
def beginFileUpload (uriAuthority : String → Option String) (settings : CumulusSettings)
    (post : DeclareFile → Result CumulusDeclaredFile) (clock : Nat → Nat)
    (request : CloudClientBeginFileUploadRequest) : Handler CloudClientBeginFileUploadResponse := do
  let client ← Effect.lift (CumulusClient.new settings)
  handleBeginFileUpload uriAuthority client post clock request

/-- Two answers that differ in blocks for the configured server only. -/
def SameAnswerAbroad (serverUrl : String) (a b : CloudClientBeginFileUploadResponse) : Prop :=
  a.encryptFile = b.encryptFile ∧ ∃ endpoint, Endpoint.parse serverUrl = .ok endpoint ∧
    List.Forall₂ (SameAbroad endpoint) a.blockRequests b.blockRequests

section Configurations

variable (uriAuthority : String → Option String) (settings : CumulusSettings)
  (post : DeclareFile → Result CumulusDeclaredFile) (request : CloudClientBeginFileUploadRequest)
  (state : AdapterState)

/-- The answer of a handler is decided by the blocks it prepares. -/
theorem handleBeginFileUpload_answer (client : CumulusClient) (clock : Nat → Nat) :
    (handleBeginFileUpload uriAuthority client post clock request state).1 =
      (preparedBlocks uriAuthority client post request state).map fun blocks =>
        ⟨some false, blocks⟩ := by
  obtain ⟨hok, herror⟩ := handleBeginFileUpload_eq uriAuthority client post clock request state
  cases hprepared : preparedBlocks uriAuthority client post request state with
  | error e => rw [herror e hprepared]; rfl
  | ok blocks => rw [hok blocks hprepared]; rfl

theorem preparedBlocks_rel (client client' : CumulusClient)
    (hsame : client'.endpoint = client.endpoint) (scope : CloudStateScope)
    (targets : List IssuedTransferTarget) :
    Result.Rel (List.Forall₂ (SameAbroad client.endpoint))
      (preparedBlocks uriAuthority client post request state)
      (preparedBlocks uriAuthority client' post request
        { state with scope := scope, transferTargets := targets }) := by
  refine (Result.Rel.refl (R := Eq) (fun _ => rfl) (declareFile state request)).bind
    fun file _ hfile => ?_
  cases hfile
  refine (Result.Rel.refl (R := Eq) (fun _ => rfl) _).bind fun declared _ hdeclared => ?_
  cases hdeclared
  exact acceptDeclared_rel hsame file.transferSize declared

/-- With another token and another client id, and the scope and the registered targets that
follow from them, the answer is another one only in blocks for the configured server. Every
header of the server that is passed on is free of line breaks. -/
theorem credentials_stay_home (token : String) (steamClientId : Option Nat)
    (scope : CloudStateScope) (targets : List IssuedTransferTarget) (clock clock' : Nat → Nat) :
    Result.Rel (SameAnswerAbroad settings.serverUrl)
      (beginFileUpload uriAuthority settings post clock request state).1
      (beginFileUpload uriAuthority
        { settings with token := token, steamClientId := steamClientId } post clock' request
        { state with scope := scope, transferTargets := targets }).1 ∧
    ∀ reply, (beginFileUpload uriAuthority settings post clock request state).1 = .ok reply →
      ∃ client file declared, CumulusClient.new settings = .ok client ∧
        declareFile state request = .ok file ∧ post file = .ok declared ∧
        List.Forall₂ (HeadersOf client) declared.blockRequests reply.blockRequests := by
  unfold beginFileUpload CumulusClient.new
  cases hparse : Endpoint.parse settings.serverUrl with
  | error e => exact ⟨rfl, fun reply h => by cases h⟩
  | ok endpoint =>
    refine ⟨?_, fun reply h => ?_⟩
    · show Result.Rel _ (handleBeginFileUpload uriAuthority _ post clock request state).1
        (handleBeginFileUpload uriAuthority _ post clock' request _).1
      rw [handleBeginFileUpload_answer, handleBeginFileUpload_answer]
      have hrel := preparedBlocks_rel uriAuthority post request state
        ⟨settings.token, settings.steamClientId.map toString, endpoint⟩
        ⟨token, steamClientId.map toString, endpoint⟩ rfl scope targets
      refine hrel.map fun a b hab => ?_
      exact ⟨rfl, endpoint, hparse, hab⟩
    · have hprepared := preparedBlocks_of_reply uriAuthority _ post clock request state h
      obtain ⟨file, hfile, hrest⟩ := Result.bind_ok hprepared
      obtain ⟨declared, hdeclared, haccept⟩ := Result.bind_ok hrest
      obtain ⟨_, hall, _⟩ := acceptDeclared_ok haccept
      exact ⟨_, file, declared, rfl, hfile, hdeclared, hall.imp fun _ _ h => h.headersOf⟩

end Configurations

end VaporForge.Rpc
