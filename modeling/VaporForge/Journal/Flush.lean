import VaporForge.Journal.Acknowledge

/-!
# Uploading the journalled playtime

`flush` of `hooks/src/playtime_worker.rs` goes over the accounts with due entries in at most
twenty rounds and hands each account's batch to the backend: what it took or refused for good
leaves the journal, what it could not take now is put off, and that ends the flush.

> Whatever the backend answers, the clock says and the journal fails to write, a row keeps its
> value or leaves the journal after an upload of that value that was answered for good
> (`flush_loses_nothing`).
-/

namespace VaporForge.Journal

open VaporForge.CloudCore
open Lib

/-- The three arms of the match on `upload_playtime`. -/
inductive UploadReply where
  | accepted
  | retryable
  | rejected
  deriving DecidableEq, Repr

inductive FlushOutcome where
  | complete
  | deviceBindingFailed (retryable : Bool)
  deriving DecidableEq, Repr

/-- What one round meets outside: the clock, the backend, and whether the journal's file takes
the write that follows an upload. -/
structure FlushRound where
  readyAt : Int
  dueAt : String → Int
  deferredAt : String → Int
  upload : String → List PlaytimeEntry → UploadReply
  written : String → Bool

/-- One call of `upload_playtime` and its answer. -/
structure Upload where
  account : String
  entries : List PlaytimeEntry
  reply : UploadReply

/-- The journal, and the uploads made so far. -/
structure Flushing where
  journal : Table PlaytimeRecord
  sent : List Upload

def readyPlaytimeAccounts (order : FetchOrder PlaytimeRecord) (t : Table PlaytimeRecord)
    (ownerScope : String) (now : Int) : List String :=
  ((t.fetch order fun r => r.ownerScope == ownerScope && r.nextAttemptAt ≤ now).map
    fun row => row.2.ownerSteamId64).dedup.insertionSort (· ≤ ·)

section Flush

variable (order : FetchOrder PlaytimeRecord) (scope : String)

/-- The accounts of one round, with whether anything was uploaded; `none` if the flush ends. -/
def flushAccounts (round : FlushRound) : List String → Bool → Flushing → Flushing × Option Bool
  | [], attempted, s => (s, some attempted)
  | account :: accounts, attempted, s =>
    let entries := pendingPlaytime order s.journal scope account (round.dueAt account)
    if entries = [] then flushAccounts round accounts attempted s
    else
      let values := entries.map (·.value)
      let reply := round.upload account values
      let sent := s.sent ++ [⟨account, values, reply⟩]
      if round.written account = false then (⟨s.journal, sent⟩, none)
      else if reply = .retryable then
        (⟨postpone s.journal entries (round.deferredAt account), sent⟩, none)
      else flushAccounts round accounts true ⟨settle s.journal entries, sent⟩

def flushRounds : List FlushRound → Flushing → Flushing
  | [], s => s
  | round :: rounds, s =>
    match flushAccounts order scope round
        (readyPlaytimeAccounts order s.journal scope round.readyAt) false s with
    | (s, some true) => flushRounds rounds s
    | (s, _) => s

/-- `flush`; `device` is what `ensure_device_bound` says of the descriptor, if there is one, with
whether its error is retryable. -/
def flush (device : Option (Except Bool Unit)) (round : Nat → FlushRound)
    (t : Table PlaytimeRecord) : Flushing × FlushOutcome :=
  if readyPlaytimeAccounts order t scope (round 0).readyAt = [] then (⟨t, []⟩, .complete)
  else
    match device with
    | none => (⟨t, []⟩, .complete)
    | some (.error retryable) => (⟨t, []⟩, .deviceBindingFailed retryable)
    | some (.ok ()) => (flushRounds order scope ((List.range 20).map round) ⟨t, []⟩, .complete)

end Flush

variable {order : FetchOrder PlaytimeRecord} {scope : String} {t : Table PlaytimeRecord} {id : Nat}
  {s s' s'' : Flushing}

/-- What a flush may do to a row. -/
structure Kept (s s' : Flushing) (id : Nat) : Prop where
  sent : s.sent <+: s'.sent
  row : (s'.journal.read id).map (·.value) = (s.journal.read id).map (·.value) ∨
    s'.journal.read id = none ∧ ∃ upload ∈ s'.sent, upload.reply ≠ .retryable ∧
      ∃ v ∈ upload.entries, (s.journal.read id).map (·.value) = some v

theorem Kept.refl (s : Flushing) : Kept s s id := ⟨List.prefix_rfl, .inl rfl⟩

theorem Kept.trans (h : Kept s s' id) (h' : Kept s' s'' id) : Kept s s'' id := by
  refine ⟨h.sent.trans h'.sent, ?_⟩
  rcases h.row with heq | ⟨hgone, upload, hmem, hupload⟩
  · rw [← heq]
    exact h'.row
  · refine .inr ⟨?_, upload, h'.sent.subset hmem, hupload⟩
    rcases h'.row with heq' | ⟨hgone', _⟩
    · rwa [hgone, Option.map_none, Option.map_eq_none_iff] at heq'
    · exact hgone'

variable {items : List (Queued PlaytimeEntry)}

/-- Only rows of the items go. -/
theorem settle_other (h : ∀ item ∈ items, item.id ≠ id) : (settle t items).read id = t.read id := by
  induction items generalizing t with
  | nil => rfl
  | cons item items ih =>
    rw [List.forall_mem_cons] at h
    refine (ih h.2).trans ?_
    unfold settleOne
    split
    · rfl
    · split
      · rw [Table.read_delete, if_neg h.1.symm]
      · rfl

/-- The batch was read from this table, so a row that goes has the value that was uploaded. -/
theorem settle_pending {account : String} {now : Int}
    (hitems : items = pendingPlaytime order t scope account now) :
    ((settle t items).read id).map (·.value) = (t.read id).map (·.value) ∨
      (settle t items).read id = none ∧
        ∃ v ∈ items.map (·.value), (t.read id).map (·.value) = some v := by
  by_cases hitem : ∃ item ∈ items, item.id = id
  · obtain ⟨item, hmem, rfl⟩ := hitem
    cases hread : (settle t items).read item.id with
    | some r => exact .inl (by rw [settle_read hread])
    | none =>
      obtain ⟨row, hrow, hhandout⟩ := mem_batch (hitems ▸ hmem)
      cases hhandout
      refine .inr ⟨rfl, _, List.mem_map_of_mem hmem, ?_⟩
      rw [(Table.mem_fetch.mp hrow).1]
      rfl
  · exact .inl (by rw [settle_other fun item hmem heq => hitem ⟨item, hmem, heq⟩])

theorem flushAccounts_kept (round : FlushRound) (accounts : List String) (attempted : Bool)
    (s : Flushing) : Kept s (flushAccounts order scope round accounts attempted s).1 id := by
  induction accounts generalizing attempted s with
  | nil => exact .refl s
  | cons account accounts ih =>
    rw [flushAccounts]
    split
    · exact ih _ _
    · dsimp only
      split
      · exact ⟨List.prefix_append .., .inl rfl⟩
      · split
        · exact ⟨List.prefix_append .., .inl (postpone_map (fun _ _ => rfl) _ _ _ id)⟩
        · next hreply =>
          refine Kept.trans ⟨List.prefix_append .., ?_⟩ (ih _ _)
          exact (settle_pending rfl).imp_right fun ⟨hgone, hvalue⟩ =>
            ⟨hgone, _, List.mem_append_right _ (List.mem_singleton_self _), hreply, hvalue⟩

theorem flushRounds_kept (rounds : List FlushRound) (s : Flushing) :
    Kept s (flushRounds order scope rounds s) id := by
  induction rounds generalizing s with
  | nil => exact .refl s
  | cons round rounds ih =>
    have hkept : Kept s (flushAccounts order scope round
        (readyPlaytimeAccounts order s.journal scope round.readyAt) false s).1 id :=
      flushAccounts_kept ..
    rw [flushRounds]
    split
    · next hresult =>
      rw [hresult] at hkept
      exact hkept.trans (ih _)
    · next hresult =>
      rw [hresult] at hkept
      exact hkept

/-- No row changes its value, and one that goes had it in an upload that was answered for good. -/
theorem flush_loses_nothing (order : FetchOrder PlaytimeRecord) (scope : String)
    (device : Option (Except Bool Unit)) (round : Nat → FlushRound) (t : Table PlaytimeRecord)
    (id : Nat) : Kept ⟨t, []⟩ (flush order scope device round t).1 id := by
  unfold flush
  split
  · exact .refl _
  · split
    · exact .refl _
    · exact .refl _
    · exact flushRounds_kept ..

end VaporForge.Journal
