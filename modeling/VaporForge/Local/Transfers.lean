import Mathlib.Algebra.Group.Nat.Defs
import Mathlib.Data.List.Count
import Mathlib.Data.List.Nodup
import Mathlib.Data.List.Perm.Basic
import Mathlib.Data.List.Perm.Subperm
import VaporForge.Lib.Assoc

/-!
# Transfer tokens

Uploads and downloads of the local backend go through URLs with a token in them
(`cloud-local/src/transfer.rs`). The registry holds the transfers that have been issued, in a
map and in a queue in the order of their issue; from the front of the queue they expire.

> Whatever threads do, queue and map hold the same tokens, each once and no more than the
> capacity; when everything is overdue the registry empties; a download token is good for one
> result; and a probe or a transfer of the wrong kind takes away only what is overdue. This
> is so for up to `2 ^ 64` issues (`registry_bounded_single_use`).

A token is the number its sixteen digits write; any other text is a number from `2 ^ 64` on.
One issue more than there are numbers repeats the first token (`token_used_twice`). A thread
takes its token and its expiry before it has the lock, so what it inserts need not be the
latest. The result of an upload is left out.
-/

namespace VaporForge.Local

open Lib

namespace Transfers

/-- `TRANSFER_TTL`, in seconds. -/
def transferTtl : Nat := 15 * 60

/-- `TRANSFER_CAPACITY` -/
def transferCapacity : Nat := 4096

inductive Operation where
  | upload (transferSize : Nat)
  | download
  deriving DecidableEq, Repr

/-- The kind in the path of a target. -/
inductive Kind where
  | upload
  | download
  deriving DecidableEq, Repr

structure IssuedTransfer where
  token : Nat
  expiresAt : Nat
  operation : Operation
  deriving DecidableEq, Repr

structure Registry where
  byToken : Assoc Nat IssuedTransfer
  order : List Nat

/-- The loop of `remove_expired` over the queue. -/
def expireFront (now : Nat) : List Nat → Assoc Nat IssuedTransfer → Registry
  | [], byToken => ⟨byToken, []⟩
  | token :: order, byToken =>
    match byToken.lookup token with
    | some issued =>
      if issued.expiresAt ≤ now then expireFront now order (byToken.erase token)
      else ⟨byToken, token :: order⟩
    | none => ⟨byToken, token :: order⟩

def Registry.removeExpired (r : Registry) (now : Nat) : Registry :=
  expireFront now r.order r.byToken

/-- `by_token.remove` with `order.retain`. -/
def Registry.remove (r : Registry) (token : Nat) : Registry :=
  ⟨r.byToken.erase token, r.order.filter (· ≠ token)⟩

def Registry.insert (r : Registry) (now : Nat) (issued : IssuedTransfer) :
    Registry × Except String Unit :=
  let r := r.removeExpired now
  if transferCapacity ≤ r.byToken.keys.length then
    (r, .error "local transfer registry capacity is exhausted")
  else (⟨r.byToken.insert issued.token issued, r.order ++ [issued.token]⟩, .ok ())

/-- `intercept_transfer`: the kind of transfer that is made, if any. -/
def Registry.interceptTransfer (r : Registry) (now : Nat) (kind : Kind) (token : Nat) :
    Registry × Option Kind :=
  let r := r.removeExpired now
  match r.byToken.lookup token with
  | none => (r, none)
  | some issued =>
    match issued.operation, kind with
    | .upload _, .upload => (r, some .upload)
    | .download, .download => (r.remove token, some .download)
    | _, _ => (r, none)

inductive Contract where
  | upload (transferSize : Nat)
  | download
  deriving DecidableEq, Repr

def Registry.transferContract (r : Registry) (now : Nat) (kind : Kind) (token : Nat) :
    Registry × Option Contract :=
  let r := r.removeExpired now
  match r.byToken.lookup token with
  | none => (r, none)
  | some issued =>
    match issued.operation, kind with
    | .upload transferSize, .upload => (r, some (.upload transferSize))
    | .download, .download => (r, some .download)
    | _, _ => (r, none)

def Registry.commitUpload (r : Registry) (now token : Nat) : Registry × Except String Unit :=
  let r := r.removeExpired now
  match r.byToken.lookup token with
  | none => (r, .error "local upload target is unknown")
  | some issued =>
    match issued.operation with
    | .upload _ => (r.remove token, .ok ())
    | .download => (r.remove token, .error "local transfer target is not an upload")

/-! ## Runs -/

/-- The registry, the clock, the number of tokens taken, and the transfers on their way to the
registry. -/
structure World where
  registry : Registry
  now : Nat
  issues : Nat
  inHand : List IssuedTransfer

def World.start : World := ⟨⟨∅, []⟩, 0, 0, []⟩

/-- `next_token`: the counter starts at one and wraps. -/
def tokenOf (issue : Nat) : Nat := (issue + 1) % 2 ^ 64

inductive Event where
  | pass (seconds : Nat)
  | issue (operation : Operation)
  | insert (position : Nat)
  | transfer (kind : Kind) (token : Nat)
  | commit (token : Nat)
  | probe (kind : Kind) (token : Nat)
  deriving DecidableEq, Repr

/-- One event. A download that is made yields its token. -/
def World.step (w : World) : Event → World × List Nat
  | .pass seconds => ({ w with now := w.now + seconds }, [])
  | .issue operation =>
    ({ w with
      issues := w.issues + 1
      inHand := w.inHand ++ [⟨tokenOf w.issues, w.now + transferTtl, operation⟩] }, [])
  | .insert position =>
    match w.inHand[position]? with
    | none => (w, [])
    | some issued =>
      ({ w with
        registry := (w.registry.insert w.now issued).1
        inHand := w.inHand.eraseIdx position }, [])
  | .transfer kind token =>
    let done := w.registry.interceptTransfer w.now kind token
    ({ w with registry := done.1 }, if done.2 = some .download then [token] else [])
  | .commit token => ({ w with registry := (w.registry.commitUpload w.now token).1 }, [])
  | .probe kind token =>
    ({ w with registry := (w.registry.transferContract w.now kind token).1 }, [])

/-- A run and the download tokens that yielded a result. -/
def World.run : World → List Event → World × List Nat
  | w, [] => (w, [])
  | w, event :: events =>
    let first := w.step event
    let rest := first.1.run events
    (rest.1, first.2 ++ rest.2)

def isIssue : Event → Bool
  | .issue _ => true
  | _ => false

/-! ## Expiry -/

/-- Queue and map hold the same tokens. -/
def Registry.Consistent (r : Registry) : Prop := r.order.Perm r.byToken.keys

variable {r : Registry} {token : Nat} {issued : IssuedTransfer} {w : World} {spent : List Nat}

theorem Registry.Consistent.nodup (h : r.Consistent) : r.order.Nodup :=
  h.nodup_iff.mpr r.byToken.keys_nodup

theorem Registry.Consistent.mem_iff (h : r.Consistent) (token : Nat) :
    token ∈ r.order ↔ (r.byToken.lookup token).isSome := by
  rw [AList.lookup_isSome, AList.mem_keys]
  exact List.Perm.mem_iff h

/-- Erasing a token from the front keeps the rest together. -/
theorem perm_erase {order : List Nat} {byToken : Assoc Nat IssuedTransfer}
    (h : (token :: order).Perm byToken.keys) : order.Perm (byToken.erase token).keys := by
  rw [AList.keys_erase]
  have := h.erase token
  rwa [List.erase_cons_head] at this

/-- What expiry does: the queue loses a part in front, and the map what is overdue. -/
theorem expireFront_spec (now : Nat) : ∀ (order : List Nat) (byToken : Assoc Nat IssuedTransfer),
    order.Perm byToken.keys →
      (expireFront now order byToken).Consistent ∧
      (expireFront now order byToken).order.Sublist order ∧
      (∀ token issued, byToken.lookup token = some issued → now < issued.expiresAt →
        (expireFront now order byToken).byToken.lookup token = some issued) ∧
      ((∀ token issued, byToken.lookup token = some issued → issued.expiresAt ≤ now) →
        (expireFront now order byToken).order = [])
  | [], byToken, h => ⟨h, .refl _, fun _ _ h _ => h, fun _ => rfl⟩
  | token :: order, byToken, h => by
    rw [expireFront]
    cases hlookup : byToken.lookup token with
    | none =>
      -- the front of the queue is in the map
      have hmem : token ∈ byToken.keys := h.mem_iff.mp List.mem_cons_self
      rw [← AList.mem_keys, ← AList.lookup_isSome, hlookup] at hmem
      exact nomatch hmem
    | some front =>
      dsimp only
      split
      · next hdue =>
        obtain ⟨hcons, hsub, hkeep, hall⟩ :=
          expireFront_spec now order (byToken.erase token) (perm_erase h)
        refine ⟨hcons, hsub.trans (List.sublist_cons_self _ _), ?_, fun hover => hall ?_⟩
        · intro other issued hother hlater
          have hne : other ≠ token := by
            intro heq
            rw [heq, hlookup] at hother
            obtain rfl := Option.some.inj hother
            omega
          exact hkeep other issued ((AList.lookup_erase_ne hne).trans hother) hlater
        · intro other issued hother
          by_cases hsame : other = token
          · rw [hsame, AList.lookup_erase] at hother
            exact nomatch hother
          · exact hover other issued ((AList.lookup_erase_ne hsame).symm.trans hother)
      · next hdue =>
        exact ⟨h, .refl _, fun _ _ h _ => h, fun hover => absurd (hover token front hlookup) hdue⟩

/-- Expiry adds nothing. -/
theorem lookup_expireFront (now : Nat) :
    ∀ (order : List Nat) (byToken : Assoc Nat IssuedTransfer),
      (expireFront now order byToken).byToken.lookup token = some issued →
        byToken.lookup token = some issued
  | [], _, h => h
  | front :: order, byToken, h => by
    rw [expireFront] at h
    split at h
    · split at h
      · have hrest := lookup_expireFront now order (byToken.erase front) h
        by_cases hsame : token = front
        · rw [hsame, AList.lookup_erase] at hrest
          exact nomatch hrest
        · rwa [AList.lookup_erase_ne hsame] at hrest
      · exact h
    · exact h

/-! ## The operations -/

theorem removeExpired_spec (h : r.Consistent) (now : Nat) :
    (r.removeExpired now).Consistent ∧ (r.removeExpired now).order.Sublist r.order :=
  have hspec := expireFront_spec now r.order r.byToken h
  ⟨hspec.1, hspec.2.1⟩

theorem Registry.Consistent.remove (h : r.Consistent) (token : Nat) :
    (r.remove token).Consistent := by
  have hfilter : r.order.filter (· ≠ token) = r.order.erase token := by
    rw [h.nodup.erase_eq_filter]
    exact List.filter_congr fun t _ => by simp [bne, beq_eq_decide]
  show (r.order.filter (· ≠ token)).Perm (r.byToken.erase token).keys
  rw [hfilter, AList.keys_erase]
  exact h.erase token

theorem count_remove (r : Registry) (token t : Nat) :
    (r.remove token).order.count t = if t = token then 0 else r.order.count t := by
  show (r.order.filter (· ≠ token)).count t = _
  split
  · next hsame =>
    rw [List.count_eq_zero, List.mem_filter]
    exact fun h => absurd hsame (by simpa using h.2)
  · next hother => exact List.count_filter (by simpa using hother)

/-- What a call can leave of a registry: overdue tokens go, and at most one other. -/
inductive Leaves (r : Registry) (now : Nat) : Registry → Prop
  | expired : Leaves r now (r.removeExpired now)
  | removed {token : Nat} : Leaves r now ((r.removeExpired now).remove token)

variable {r' : Registry} {now : Nat}

theorem Leaves.consistent (h : Leaves r now r') (hr : r.Consistent) :
    r'.Consistent ∧ ∀ t, r'.order.count t ≤ r.order.count t := by
  obtain ⟨hcons, hsub⟩ := removeExpired_spec hr now
  cases h with
  | expired => exact ⟨hcons, fun t => hsub.count_le t⟩
  | removed =>
    refine ⟨hcons.remove _, fun t => ?_⟩
    rw [count_remove]
    split
    · exact Nat.zero_le _
    · exact hsub.count_le t

/-- A transfer leaves the registry after expiry, or takes a download token that was in it. -/
theorem interceptTransfer_cases (r : Registry) (now : Nat) (kind : Kind) (token : Nat) :
    ((r.interceptTransfer now kind token).1 = r.removeExpired now ∧
      (r.interceptTransfer now kind token).2 ≠ some .download) ∨
    (kind = .download ∧ (∃ issued, (r.removeExpired now).byToken.lookup token = some issued ∧
        issued.operation = .download) ∧
      (r.interceptTransfer now kind token).1 = (r.removeExpired now).remove token ∧
      (r.interceptTransfer now kind token).2 = some .download) := by
  rw [Registry.interceptTransfer]
  cases hlookup : (r.removeExpired now).byToken.lookup token with
  | none => exact .inl ⟨rfl, by simp⟩
  | some issued =>
    dsimp only
    cases hop : issued.operation with
    | upload transferSize =>
      cases kind with
      | upload => exact .inl ⟨rfl, by simp⟩
      | download => exact .inl ⟨rfl, by simp⟩
    | download =>
      cases kind with
      | upload => exact .inl ⟨rfl, by simp⟩
      | download => exact .inr ⟨rfl, ⟨issued, rfl, hop⟩, rfl, rfl⟩

theorem transferContract_registry (r : Registry) (now : Nat) (kind : Kind) (token : Nat) :
    (r.transferContract now kind token).1 = r.removeExpired now := by
  rw [Registry.transferContract]
  split
  · rfl
  · split <;> rfl

theorem commitUpload_leaves (r : Registry) (now token : Nat) :
    Leaves r now (r.commitUpload now token).1 := by
  rw [Registry.commitUpload]
  split
  · exact .expired
  · split
    · exact .removed
    · exact .removed

/-! ## The invariant -/

/-- How often a token is in the queue, on its way there, or spent. -/
def held (w : World) (spent : List Nat) (t : Nat) : Nat :=
  w.registry.order.count t + (w.inHand.map IssuedTransfer.token).count t + spent.count t

structure Inv (w : World) (spent : List Nat) : Prop where
  consistent : w.registry.Consistent
  capacity : w.registry.order.length ≤ transferCapacity
  once : ∀ t, held w spent t ≤ 1
  fresh : ∀ t, 0 < held w spent t → ∃ issue < w.issues, t = tokenOf issue

theorem inv_start : Inv World.start [] where
  consistent := .refl _
  capacity := Nat.zero_le _
  once := fun _ => Nat.zero_le 1
  fresh := fun _ h => absurd h (Nat.lt_irrefl 0)

/-- Nothing new comes in. -/
theorem Inv.of_le {w' : World} {spent' : List Nat} (h : Inv w spent)
    (hcons : w'.registry.Consistent) (hcap : w'.registry.order.length ≤ transferCapacity)
    (hissues : w'.issues = w.issues) (hle : ∀ t, held w' spent' t ≤ held w spent t) :
    Inv w' spent' where
  consistent := hcons
  capacity := hcap
  once := fun t => Nat.le_trans (hle t) (h.once t)
  fresh := fun t ht => by
    rw [hissues]
    exact h.fresh t (Nat.lt_of_lt_of_le ht (hle t))

theorem length_le_of_count_le {l l' : List Nat} (hnodup : l.Nodup)
    (h : ∀ t, l.count t ≤ l'.count t) : l.length ≤ l'.length := by
  refine (hnodup.subperm fun t ht => ?_).length_le
  have hpos := List.count_pos_iff.mpr ht
  exact List.count_pos_iff.mp (Nat.lt_of_lt_of_le hpos (h t))

/-- The registry loses tokens, and everything else stays. -/
theorem Inv.leaves (h : Inv w spent) (hleaves : Leaves w.registry w.now r') :
    Inv { w with registry := r' } spent := by
  obtain ⟨hcons, hcount⟩ := hleaves.consistent h.consistent
  have hlen := length_le_of_count_le hcons.nodup hcount
  refine h.of_le hcons (Nat.le_trans hlen h.capacity) rfl ?_
  intro t
  have := hcount t
  simp only [held]
  omega

theorem tokenOf_inj {issue issue' : Nat} (h : issue < 2 ^ 64) (h' : issue' < 2 ^ 64)
    (heq : tokenOf issue = tokenOf issue') : issue = issue' := by
  simp only [tokenOf] at heq
  omega

theorem Inv.issue (h : Inv w spent) (hroom : w.issues < 2 ^ 64) (operation : Operation) :
    Inv (w.step (.issue operation)).1 spent := by
  have hheld : ∀ t, held (w.step (.issue operation)).1 spent t =
      held w spent t + if tokenOf w.issues = t then 1 else 0 := by
    intro t
    simp only [held, World.step, List.map_append, List.map_cons, List.map_nil, List.count_append,
      List.count_singleton, beq_iff_eq]
    omega
  have hnew : held w spent (tokenOf w.issues) = 0 := by
    by_contra hpos
    obtain ⟨issue, hlt, heq⟩ := h.fresh _ (Nat.pos_of_ne_zero hpos)
    have := tokenOf_inj hroom (Nat.lt_trans hlt hroom) heq
    omega
  refine ⟨h.consistent, h.capacity, fun t => ?_, fun t ht => ?_⟩
  · rw [hheld]
    split
    · next hsame =>
      rw [← hsame, hnew]
    · exact h.once t
  · rw [hheld] at ht
    by_cases hsame : tokenOf w.issues = t
    · exact ⟨w.issues, Nat.lt_succ_self _, hsame.symm⟩
    · rw [if_neg hsame] at ht
      obtain ⟨issue, hlt, heq⟩ := h.fresh t ht
      exact ⟨issue, Nat.lt_succ_of_lt hlt, heq⟩

theorem count_inHand {hand : List IssuedTransfer} {position : Nat}
    (h : hand[position]? = some issued) (t : Nat) :
    (hand.map IssuedTransfer.token).count t =
      ((hand.eraseIdx position).map IssuedTransfer.token).count t +
        if issued.token = t then 1 else 0 := by
  obtain ⟨hlt, hget⟩ := List.getElem?_eq_some_iff.mp h
  have hperm := (List.getElem_cons_eraseIdx_perm hlt).map IssuedTransfer.token
  rw [← hperm.count_eq t, List.map_cons, List.count_cons, hget]
  simp only [beq_iff_eq]

theorem Inv.insert (h : Inv w spent) (position : Nat) :
    Inv (w.step (.insert position)).1 spent := by
  rw [World.step]
  cases hget : w.inHand[position]? with
  | none => exact h
  | some issued =>
    obtain ⟨hcons, hsub⟩ := removeExpired_spec h.consistent w.now
    have hlen : (w.registry.removeExpired w.now).order.length ≤ transferCapacity :=
      Nat.le_trans hsub.length_le h.capacity
    dsimp only
    rw [Registry.insert]
    split
    · refine h.of_le hcons hlen rfl fun t => ?_
      have hcount := hsub.count_le t
      have hhand := count_inHand hget t
      simp only [held]
      omega
    · next hroom =>
      -- the token in hand is in the queue of no one else
      have hnot : issued.token ∉ (w.registry.removeExpired w.now).order := by
        intro hmem
        have hin := List.count_pos_iff.mpr (hsub.subset hmem)
        have hhand := count_inHand hget issued.token
        have honce := h.once issued.token
        rw [if_pos rfl] at hhand
        simp only [held] at honce
        omega
      refine h.of_le ?_ ?_ rfl fun t => ?_
      · show (_ ++ [issued.token]).Perm (AList.insert issued.token issued _).keys
        have hkey := mt (List.Perm.mem_iff hcons).mpr hnot
        rw [AList.keys_insert, List.erase_of_not_mem hkey]
        exact List.perm_append_singleton _ _ |>.trans (hcons.cons _)
      · show (_ ++ [issued.token]).length ≤ _
        have hkeys : _ = (w.registry.removeExpired w.now).byToken.keys.length := hcons.length_eq
        rw [List.length_append, hkeys, List.length_singleton]
        omega
      · have hcount := hsub.count_le t
        have hhand := count_inHand hget t
        simp only [held, List.count_append, List.count_singleton, beq_iff_eq]
        omega

theorem Inv.transfer (h : Inv w spent) (kind : Kind) (token : Nat) :
    Inv (w.step (.transfer kind token)).1
      (spent ++ (w.step (.transfer kind token)).2) := by
  obtain ⟨hregistry, hresult⟩ | ⟨-, ⟨issued, hlookup, -⟩, hregistry, hresult⟩ :=
    interceptTransfer_cases w.registry w.now kind token
  · simp only [World.step, hregistry, if_neg hresult, List.append_nil]
    exact h.leaves .expired
  · simp only [World.step, hregistry, if_pos hresult]
    have hleft := h.leaves (@Leaves.removed _ _ token)
    refine h.of_le hleft.consistent hleft.capacity rfl fun t => ?_
    obtain ⟨hcons, hsub⟩ := removeExpired_spec h.consistent w.now
    have hmem : token ∈ (w.registry.removeExpired w.now).order := by
      rw [hcons.mem_iff, hlookup]
      rfl
    have hin := List.count_pos_iff.mpr (hsub.subset hmem)
    have hcount := hsub.count_le t
    simp only [held, count_remove, List.count_append, List.count_singleton, beq_iff_eq]
    split
    · next hsame =>
      subst hsame
      rw [if_pos rfl]
      omega
    · next hother =>
      rw [if_neg fun hsame => hother hsame.symm]
      omega

/-- Every event keeps the invariant. -/
theorem Inv.step (h : Inv w spent) (event : Event)
    (hroom : isIssue event = true → w.issues < 2 ^ 64) :
    Inv (w.step event).1 (spent ++ (w.step event).2) := by
  cases event with
  | transfer kind token => exact h.transfer kind token
  | pass seconds =>
    rw [World.step, List.append_nil]
    exact ⟨h.consistent, h.capacity, h.once, h.fresh⟩
  | issue operation =>
    rw [show (w.step (.issue operation)).2 = [] from rfl, List.append_nil]
    exact h.issue (hroom rfl) operation
  | insert position =>
    have hnone : (w.step (.insert position)).2 = [] := by
      rw [World.step]
      split <;> rfl
    rw [hnone, List.append_nil]
    exact h.insert position
  | commit token =>
    rw [World.step, List.append_nil]
    exact h.leaves (commitUpload_leaves _ _ _)
  | probe kind token =>
    rw [World.step, List.append_nil, transferContract_registry]
    exact h.leaves .expired

theorem issues_step (w : World) (event : Event) :
    (w.step event).1.issues = w.issues + if isIssue event then 1 else 0 := by
  cases event with
  | insert position =>
    rw [World.step]
    split <;> rfl
  | _ => rfl

theorem Inv.run : ∀ (events : List Event) {w : World} {spent : List Nat}, Inv w spent →
    w.issues + events.countP isIssue ≤ 2 ^ 64 →
      Inv (w.run events).1 (spent ++ (w.run events).2)
  | [], w, spent, h, _ => by
    rw [World.run, List.append_nil]
    exact h
  | event :: events, w, spent, h, hroom => by
    rw [World.run, ← List.append_assoc]
    rw [List.countP_cons] at hroom
    refine Inv.run events (h.step event fun hissue => ?_) ?_
    · rw [if_pos hissue] at hroom
      omega
    · rw [issues_step]
      omega

/-! ## Bounded, and single use -/

/-- A registry keeps what is not overdue through a probe or a transfer of the wrong kind. -/
theorem unexpired_kept (h : r.Consistent) (hlookup : r.byToken.lookup token = some issued)
    (hlive : now < issued.expiresAt) : (r.removeExpired now).byToken.lookup token = some issued :=
  (expireFront_spec now r.order r.byToken h).2.2.1 token issued hlookup hlive

theorem registry_bounded_single_use (events : List Event)
    (hissues : events.countP isIssue ≤ 2 ^ 64) :
    let w := (World.start.run events).1
    w.registry.order.Nodup ∧
    (∀ token, token ∈ w.registry.order ↔ (w.registry.byToken.lookup token).isSome) ∧
    w.registry.byToken.keys.length ≤ transferCapacity ∧
    (∀ now, (∀ token issued, w.registry.byToken.lookup token = some issued →
        issued.expiresAt ≤ now) → (w.registry.removeExpired now).order = []) ∧
    (World.start.run events).2.Nodup ∧
    (∀ token issued, w.registry.byToken.lookup token = some issued → w.now < issued.expiresAt →
      (∀ kind other, (w.step (.probe kind other)).1.registry.byToken.lookup token = some issued) ∧
      (∀ kind other, (∀ transfer, w.registry.byToken.lookup other = some transfer →
          (kind = .download ↔ transfer.operation ≠ .download)) →
        (w.step (.transfer kind other)).1.registry.byToken.lookup token = some issued)) := by
  have h : Inv (World.start.run events).1 (World.start.run events).2 :=
    Inv.run events inv_start (by rw [show World.start.issues = 0 from rfl]; omega)
  refine ⟨h.consistent.nodup, h.consistent.mem_iff, ?_, ?_, ?_, ?_⟩
  · rw [← List.Perm.length_eq h.consistent]
    exact h.capacity
  · intro now hdue
    exact (expireFront_spec now _ _ h.consistent).2.2.2 hdue
  · rw [List.nodup_iff_count_le_one]
    intro t
    exact Nat.le_trans (Nat.le_add_left _ _) (h.once t)
  · intro token issued hlookup hlive
    have hkept := unexpired_kept h.consistent hlookup hlive
    constructor
    · intro kind other
      rw [World.step, transferContract_registry]
      exact hkept
    · intro kind other hwrong
      rw [World.step]
      obtain ⟨hregistry, -⟩ | ⟨hkind, ⟨transfer, hfound, hop⟩, -, -⟩ :=
        interceptTransfer_cases (World.start.run events).1.registry _ kind other
      · rw [hregistry]
        exact hkept
      · -- a download of a download is not of the wrong kind
        have hbefore := lookup_expireFront _ _ _ hfound
        exact absurd hop ((hwrong transfer hbefore).mp hkind)

theorem one_download :
    let events := [.issue .download, .insert 0, .transfer .upload 1, .transfer .download 1,
      .transfer .download 1]
    events.countP isIssue ≤ 2 ^ 64 ∧ (World.start.run events).2 = [1] ∧
      (World.start.run events).2.Nodup :=
  ⟨by decide, by decide, (registry_bounded_single_use _ (by decide)).2.2.2.2.1⟩

/-! ## The first token again -/

/-- Downloads that are issued, registered and made one after the other. -/
def rounds : Nat → Nat → List Event
  | 0, _ => []
  | n + 1, issue => .issue .download :: .insert 0 :: .transfer .download (tokenOf issue) ::
      rounds n (issue + 1)

theorem insert_erase (token : Nat) (issued : IssuedTransfer) :
    ((∅ : Assoc Nat IssuedTransfer).insert token issued).erase token = ∅ := by
  apply AList.ext
  show List.kerase token [(⟨token, issued⟩ : Sigma fun _ : Nat => IssuedTransfer)] = []
  exact List.kerase_cons_eq rfl

theorem made_at_once (token : Nat) :
    let issued : IssuedTransfer := ⟨token, 0 + transferTtl, .download⟩
    (Registry.insert ⟨∅, []⟩ 0 issued).1.interceptTransfer 0 .download token =
      (⟨∅, []⟩, some .download) := by
  intro issued
  have hlive : ¬ issued.expiresAt ≤ 0 := show ¬ 0 + transferTtl ≤ 0 by decide
  have hexpire : expireFront 0 [token] ((∅ : Assoc Nat IssuedTransfer).insert token issued) =
      ⟨(∅ : Assoc Nat IssuedTransfer).insert token issued, [token]⟩ := by
    simp only [expireFront, AList.lookup_insert, if_neg hlive]
  show Registry.interceptTransfer ⟨(∅ : Assoc Nat IssuedTransfer).insert token issued, [token]⟩
    0 .download token = _
  simp only [Registry.interceptTransfer, Registry.removeExpired, hexpire, AList.lookup_insert,
    Registry.remove, insert_erase]
  simp [issued]

theorem run_rounds : ∀ n issue : Nat,
    (World.run ⟨⟨∅, []⟩, 0, issue, []⟩ (rounds n issue)).2 =
      (List.range' issue n).map tokenOf
  | 0, _ => rfl
  | n + 1, issue => by
    have hmade := made_at_once (tokenOf issue)
    have hrest := run_rounds n (issue + 1)
    dsimp only at hmade
    rw [rounds, List.range'_succ, List.map_cons, ← hrest]
    simp only [World.run, World.step, List.nil_append, List.getElem?_cons_zero,
      List.eraseIdx_cons_zero, hmade, if_true, List.singleton_append]

theorem repeated {n : Nat} (h : 2 ^ 64 < n) : ¬ ((List.range' 0 n).map tokenOf).Nodup := by
  intro hnodup
  have hmem : 2 ^ 64 ∈ List.range' 0 n := List.mem_range'_1.mpr ⟨Nat.zero_le _, by omega⟩
  have hzero : 0 ∈ List.range' 0 n := List.mem_range'_1.mpr ⟨Nat.le_refl _, by omega⟩
  have hwrap : tokenOf (2 ^ 64) = tokenOf 0 := by decide
  have hinj := List.inj_on_of_nodup_map hnodup hmem hzero hwrap
  omega

/-- After every number has been a token, the first one is good for a second download. -/
theorem token_used_twice : ∃ events, ¬ (World.start.run events).2.Nodup := by
  refine ⟨rounds (2 ^ 64 + 1) 0, ?_⟩
  rw [World.start, run_rounds]
  exact repeated (Nat.lt_succ_self _)

end Transfers

end VaporForge.Local
