import VaporForge.Lib.Assoc
import Mathlib.Data.List.Induction

/-!
# Launch tokens of the IPC server

`hooks/src/ipc_server.rs` hands a random token to every game it launches and accepts the
connections that present it. A token should be good from its registration until its app
stops, or for a grace period if the app never starts:

> a token whose app has never been active is accepted before the startup grace has passed and
> never after it

The table is swept when a token is registered and when the set of running apps changes, and
only then; a handshake looks a token up and does not look at the clock. `accepted_iff` says
what becomes of a token in terms of the calls since its registration: it is revoked, it
expires, or it is discarded because the table is full. `launch_token_iff` compares this with
what the rule above asks for.

Times are nanoseconds since some moment.
-/

namespace VaporForge.Hooks

open Lib

/-! ## The table -/

structure TokenEntry where
  appId : Nat
  registeredAt : Nat
  seenActive : Bool
  deriving DecidableEq, Repr

/-- `TOKEN_STARTUP_GRACE`: five minutes. -/
def tokenStartupGrace : Nat := 300000000000

def maxSessionTokens : Nat := 1024

section Table

variable {Token : Type} [DecidableEq Token]

abbrev TokenOrder (Token : Type) := Arrangement ((_ : Token) × TokenEntry)

/-- `min_by_key`: the first one of the smallest key. -/
def oldest (entries : List ((_ : Token) × TokenEntry)) : Option ((_ : Token) × TokenEntry) :=
  entries.foldl (fun best e =>
    match best with
    | none => some e
    | some b => if e.2.registeredAt < b.2.registeredAt then some e else some b) none

/-- The `retain` of `register_token`. -/
def unexpired (tokens : Assoc Token TokenEntry) (now : Nat) : Assoc Token TokenEntry :=
  tokens.retain fun _ entry =>
    entry.seenActive || decide (now - entry.registeredAt < tokenStartupGrace)

/-- The token that has to go because the table is full. -/
def discarded (order : TokenOrder Token) (tokens : Assoc Token TokenEntry) (now : Nat) :
    Option Token :=
  let live := unexpired tokens now
  if live.entries.length = maxSessionTokens then
    (oldest (order.arrange live.entries)).map Sigma.fst
  else none

def registerToken (order : TokenOrder Token) (tokens : Assoc Token TokenEntry) (token : Token)
    (appId now : Nat) : Assoc Token TokenEntry :=
  let room :=
    match discarded order tokens now with
    | some oldest => (unexpired tokens now).erase oldest
    | none => unexpired tokens now
  room.insert token ⟨appId, now, false⟩

def updateSessionTokens (tokens : Assoc Token TokenEntry) (activeAppIds : List Nat) (now : Nat) :
    Assoc Token TokenEntry :=
  tokens.retainMap fun _ entry =>
    if entry.appId ∈ activeAppIds then some { entry with seenActive := true }
    else if entry.seenActive then none
    else if now - entry.registeredAt < tokenStartupGrace then some entry
    else none

/-- `handle_connection` accepts a `HELLO`. -/
def handshake (tokens : Assoc Token TokenEntry) (token : Token) (appId : Nat) : Bool :=
  (tokens.lookup token).any fun entry => entry.appId == appId

inductive TokenEvent (Token : Type) where
  | register (token : Token) (appId now : Nat)
  | update (activeAppIds : List Nat) (now : Nat)
  deriving DecidableEq, Repr

def TokenEvent.apply (order : TokenOrder Token) (tokens : Assoc Token TokenEntry) :
    TokenEvent Token → Assoc Token TokenEntry
  | .register token appId now => registerToken order tokens token appId now
  | .update activeAppIds now => updateSessionTokens tokens activeAppIds now

/-- The table after some calls. -/
def tokensAfter (order : TokenOrder Token) (events : List (TokenEvent Token)) :
    Assoc Token TokenEntry :=
  events.foldl (TokenEvent.apply order) ∅

end Table

/-! ## What should become of a token -/

/-- At some point of the list, `P` holds of the elements before and the one that follows. -/
def Happens {α : Type} (P : List α → α → Prop) (l : List α) : Prop :=
  ∃ before e rest, l = before ++ e :: rest ∧ P before e

theorem happens_concat {α : Type} {P : List α → α → Prop} {l : List α} {x : α} :
    Happens P (l ++ [x]) ↔ Happens P l ∨ P l x := by
  constructor
  · intro h
    obtain ⟨before, e, rest, heq, hp⟩ := h
    rcases List.eq_nil_or_concat rest with rfl | ⟨rest, y, rfl⟩
    · obtain ⟨rfl, hlast⟩ := List.append_inj' heq rfl
      obtain ⟨rfl, _⟩ := List.cons.inj hlast
      exact .inr hp
    · rw [List.concat_eq_append, ← List.cons_append, ← List.append_assoc] at heq
      obtain ⟨rfl, _⟩ := List.append_inj' heq rfl
      exact .inl ⟨before, e, rest, rfl, hp⟩
  · intro h
    rcases h with ⟨before, e, rest, rfl, hp⟩ | hp
    · exact ⟨before, e, rest ++ [x], by rw [List.append_assoc, List.cons_append], hp⟩
    · exact ⟨l, x, [], rfl, hp⟩

section Rule

variable {Token : Type} [DecidableEq Token]

namespace TokenEvent

/-- An update with the app among the running ones. -/
def names (app : Nat) : TokenEvent Token → Bool
  | .register _ _ _ => false
  | .update activeAppIds _ => activeAppIds.contains app

/-- An update without it. -/
def omits (app : Nat) : TokenEvent Token → Bool
  | .register _ _ _ => false
  | .update activeAppIds _ => !activeAppIds.contains app

def time : TokenEvent Token → Nat
  | .register _ _ now => now
  | .update _ now => now

def token? : TokenEvent Token → Option Token
  | .register token _ _ => some token
  | .update _ _ => none

end TokenEvent

def everActive (app : Nat) (events : List (TokenEvent Token)) : Bool :=
  events.any (TokenEvent.names app)

/-- The app was running and then was not. -/
def Revoked (app : Nat) : List (TokenEvent Token) → Prop :=
  Happens fun before e => everActive app before = true ∧ e.omits app = true

/-- The table was swept after the grace of an app that had not been running. -/
def Expired (app registeredAt : Nat) : List (TokenEvent Token) → Prop :=
  Happens fun before e => everActive app before = false ∧ e.names app = false ∧
    tokenStartupGrace ≤ e.time - registeredAt

/-- The token had to go because the table was full. -/
def Discarded (order : TokenOrder Token) (past : List (TokenEvent Token)) (token : Token) :
    List (TokenEvent Token) → Prop :=
  Happens fun before e => e.token?.isSome = true ∧
    discarded order (tokensAfter order (past ++ before)) e.time = some token

/-- The rule: an app that has been running must be running still, and one that has not is
given its grace. -/
def Valid (app registeredAt : Nat) (after : List (TokenEvent Token)) (now : Nat) : Prop :=
  if everActive app after then ¬ Revoked app after else now - registeredAt < tokenStartupGrace

end Rule

/-! ## The size of the table -/

section Size

variable {Token : Type} {order : TokenOrder Token} {tokens : Assoc Token TokenEntry}

/-- The oldest of some entries is one of them. -/
theorem foldl_oldest_mem (entries : List ((_ : Token) × TokenEntry))
    (b : (_ : Token) × TokenEntry) :
    ∃ e, entries.foldl (fun best e =>
        match best with
        | none => some e
        | some b => if e.2.registeredAt < b.2.registeredAt then some e else some b) (some b) =
      some e ∧ e ∈ b :: entries := by
  induction entries generalizing b with
  | nil => exact ⟨b, rfl, List.mem_cons_self⟩
  | cons x entries ih =>
    rw [List.foldl_cons]
    dsimp only
    split
    · obtain ⟨e, heq, hmem⟩ := ih x
      exact ⟨e, heq, List.mem_cons_of_mem b hmem⟩
    · obtain ⟨e, heq, hmem⟩ := ih b
      refine ⟨e, heq, ?_⟩
      rcases List.mem_cons.mp hmem with rfl | hmem
      · exact List.mem_cons_self
      · exact List.mem_cons_of_mem b (List.mem_cons_of_mem x hmem)

theorem oldest_mem {entries : List ((_ : Token) × TokenEntry)} (h : entries ≠ []) :
    ∃ e, oldest entries = some e ∧ e ∈ entries := by
  cases entries with
  | nil => exact absurd rfl h
  | cons b entries => exact foldl_oldest_mem entries b

theorem length_unexpired_le (tokens : Assoc Token TokenEntry) (now : Nat) :
    (unexpired tokens now).entries.length ≤ tokens.entries.length := List.length_filter_le _ _

theorem length_updateSessionTokens_le (tokens : Assoc Token TokenEntry) (active : List Nat)
    (now : Nat) :
    (updateSessionTokens tokens active now).entries.length ≤ tokens.entries.length :=
  List.length_filterMap_le _ _

variable [DecidableEq Token]

theorem length_insert_le (m : Assoc Token TokenEntry) (token : Token) (entry : TokenEntry) :
    (m.insert token entry).entries.length ≤ m.entries.length + 1 := by
  have hkeys : (m.insert token entry).keys.length = (token :: m.keys.erase token).length := by
    rw [AList.keys_insert]
  have herase : (m.keys.erase token).length ≤ m.keys.length := List.length_erase_le
  have hlength (m : Assoc Token TokenEntry) : m.keys.length = m.entries.length := List.length_map _
  rw [hlength, List.length_cons] at hkeys
  rw [hlength] at herase
  omega

theorem length_erase_of_mem {m : Assoc Token TokenEntry} {token : Token} (h : token ∈ m) :
    (m.erase token).entries.length = m.entries.length - 1 := by
  have hkeys : (m.erase token).keys.length = (m.keys.erase token).length := by
    rw [AList.keys_erase]
  have hlength (m : Assoc Token TokenEntry) : m.keys.length = m.entries.length := List.length_map _
  rw [List.length_erase_of_mem h, hlength, hlength] at hkeys
  exact hkeys

/-- There is room for the token that is registered. -/
theorem length_registerToken_le (h : tokens.entries.length ≤ maxSessionTokens) (token : Token)
    (appId now : Nat) :
    (registerToken order tokens token appId now).entries.length ≤ maxSessionTokens := by
  have hlive := length_unexpired_le tokens now
  unfold registerToken
  dsimp only
  refine Nat.le_trans (length_insert_le _ token _) ?_
  cases hfull : discarded order tokens now with
  | none =>
    show (unexpired tokens now).entries.length + 1 ≤ maxSessionTokens
    unfold discarded at hfull
    by_cases hlen : (unexpired tokens now).entries.length = maxSessionTokens
    · -- a full table has an oldest entry
      have hne : order.arrange (unexpired tokens now).entries ≠ [] := by
        intro hnil
        have hperm := (order.perm (unexpired tokens now).entries).length_eq
        rw [hnil, hlen] at hperm
        cases hperm
      obtain ⟨e, he, _⟩ := oldest_mem hne
      rw [if_pos hlen, he] at hfull
      cases hfull
    · omega
  | some gone =>
    show ((unexpired tokens now).erase gone).entries.length + 1 ≤ maxSessionTokens
    unfold discarded at hfull
    dsimp only at hfull
    split at hfull
    · rename_i hlen
      obtain ⟨e, he, rfl⟩ := Option.map_eq_some_iff.mp hfull
      have hmem : e.1 ∈ unexpired tokens now := by
        have hne : order.arrange (unexpired tokens now).entries ≠ [] := by
          intro hnil
          rw [hnil] at he
          cases he
        obtain ⟨e', he', hmem⟩ := oldest_mem hne
        rw [he] at he'
        cases he'
        exact List.mem_map_of_mem (order.mem_arrange.mp hmem)
      rw [length_erase_of_mem hmem, hlen]
      exact Nat.le_refl _
    · cases hfull

theorem length_tokensAfter_le (order : TokenOrder Token) (events : List (TokenEvent Token)) :
    (tokensAfter order events).entries.length ≤ maxSessionTokens := by
  unfold tokensAfter
  induction events using List.reverseRecOn with
  | nil => exact Nat.zero_le _
  | append_singleton events e ih =>
    rw [List.foldl_concat]
    cases e with
    | register token appId now => exact length_registerToken_le ih token appId now
    | update active now => exact Nat.le_trans (length_updateSessionTokens_le _ active now) ih

end Size

/-! ## What becomes of a token -/

section Fate

variable {Token : Type} [DecidableEq Token] {order : TokenOrder Token}
  {tokens : Assoc Token TokenEntry}

/-- A token of another registration is kept as long as it has not expired and is not the one
that has to go. -/
theorem lookup_registerToken {token other : Token} (hne : token ≠ other) (appId now : Nat) :
    (registerToken order tokens other appId now).lookup token =
      if discarded order tokens now = some token then none
      else (tokens.lookup token).filter fun entry =>
        entry.seenActive || decide (now - entry.registeredAt < tokenStartupGrace) := by
  have hlive : (unexpired tokens now).lookup token = (tokens.lookup token).filter fun entry =>
      entry.seenActive || decide (now - entry.registeredAt < tokenStartupGrace) :=
    Assoc.lookup_retain _ tokens token
  unfold registerToken
  dsimp only
  rw [Assoc.lookup_insert_eq, if_neg hne]
  cases hgone : discarded order tokens now with
  | none =>
    rw [if_neg (fun h => nomatch h)]
    exact hlive
  | some gone =>
    show ((unexpired tokens now).erase gone).lookup token = _
    rw [Assoc.lookup_erase_eq, hlive]
    by_cases heq : token = gone
    · rw [if_pos heq, if_pos (congrArg some heq.symm)]
    · rw [if_neg heq, if_neg fun h => heq (Option.some.inj h).symm]

theorem lookup_updateSessionTokens (active : List Nat) (now : Nat) (token : Token) :
    (updateSessionTokens tokens active now).lookup token =
      (tokens.lookup token).bind fun entry =>
        if entry.appId ∈ active then some { entry with seenActive := true }
        else if entry.seenActive then none
        else if now - entry.registeredAt < tokenStartupGrace then some entry
        else none :=
  Assoc.lookup_retainMap _ tokens token

/-- Something that took a token out of the table happened. -/
def Gone (order : TokenOrder Token) (past : List (TokenEvent Token)) (token : Token)
    (app registeredAt : Nat) (after : List (TokenEvent Token)) : Prop :=
  Revoked app after ∨ Expired app registeredAt after ∨ Discarded order past token after

variable {past after : List (TokenEvent Token)} {token : Token} {app registeredAt : Nat}

theorem gone_concat (order : TokenOrder Token) (past : List (TokenEvent Token)) (token : Token)
    (app registeredAt : Nat) (after : List (TokenEvent Token)) (e : TokenEvent Token) :
    Gone order past token app registeredAt (after ++ [e]) ↔
      Gone order past token app registeredAt after ∨
      (everActive app after = true ∧ e.omits app = true) ∨
      (everActive app after = false ∧ e.names app = false ∧
        tokenStartupGrace ≤ e.time - registeredAt) ∨
      (e.token?.isSome = true ∧
        discarded order (tokensAfter order (past ++ after)) e.time = some token) := by
  unfold Gone Revoked Expired Discarded
  rw [happens_concat, happens_concat, happens_concat]
  constructor
  · rintro ((h | h) | (h | h) | (h | h))
    · exact .inl (.inl h)
    · exact .inr (.inl h)
    · exact .inl (.inr (.inl h))
    · exact .inr (.inr (.inl h))
    · exact .inl (.inr (.inr h))
    · exact .inr (.inr (.inr h))
  · rintro ((h | h | h) | h | h | h)
    · exact .inl (.inl h)
    · exact .inr (.inl (.inl h))
    · exact .inr (.inr (.inl h))
    · exact .inl (.inr h)
    · exact .inr (.inl (.inr h))
    · exact .inr (.inr (.inr h))

omit [DecidableEq Token] in
theorem everActive_concat (e : TokenEvent Token) :
    everActive app (after ++ [e]) = (everActive app after || e.names app) := by
  unfold everActive
  rw [List.any_append, List.any_cons, List.any_nil, Bool.or_false]

/-- The entry of a token, or why it is gone. -/
structure Fate (order : TokenOrder Token) (past : List (TokenEvent Token)) (token : Token)
    (app registeredAt : Nat) (after : List (TokenEvent Token)) : Prop where
  gone : Gone order past token app registeredAt after →
    (tokensAfter order (past ++ after)).lookup token = none
  kept : ¬ Gone order past token app registeredAt after →
    (tokensAfter order (past ++ after)).lookup token =
      some ⟨app, registeredAt, everActive app after⟩

theorem tokensAfter_concat (order : TokenOrder Token) (events : List (TokenEvent Token))
    (e : TokenEvent Token) :
    tokensAfter order (events ++ [e]) = e.apply order (tokensAfter order events) :=
  List.foldl_concat ..

/-- The table has nothing of a token that is gone, whatever is called. -/
theorem lookup_apply_none {e : TokenEvent Token} (hother : e.token? ≠ some token)
    (h : tokens.lookup token = none) : (e.apply order tokens).lookup token = none := by
  cases e with
  | register other appId now =>
    have hne : token ≠ other := fun heq => hother (congrArg some heq.symm)
    show (registerToken order tokens other appId now).lookup token = none
    rw [lookup_registerToken hne, h]
    exact ite_self none
  | update active now =>
    show (updateSessionTokens tokens active now).lookup token = none
    rw [lookup_updateSessionTokens, h]
    rfl

/-- What a call makes of an entry: it takes it out, or notes that the app was running. -/
theorem lookup_apply_some (order : TokenOrder Token) {e : TokenEvent Token}
    (hother : e.token? ≠ some token) {seen : Bool}
    (h : tokens.lookup token = some ⟨app, registeredAt, seen⟩) :
    (e.apply order tokens).lookup token =
      if (seen = true ∧ e.omits app = true) ∨
          (seen = false ∧ e.names app = false ∧ tokenStartupGrace ≤ e.time - registeredAt) ∨
          (e.token?.isSome = true ∧ discarded order tokens e.time = some token)
      then none else some ⟨app, registeredAt, seen || e.names app⟩ := by
  cases e with
  | register other appId now =>
    have hne : token ≠ other := fun heq => hother (congrArg some heq.symm)
    show (registerToken order tokens other appId now).lookup token = _
    rw [lookup_registerToken hne, h, Option.filter_some]
    by_cases hfull : discarded order tokens now = some token
    · rw [if_pos hfull, if_pos (.inr (.inr ⟨rfl, hfull⟩))]
    · rw [if_neg hfull]
      cases seen with
      | true => simp [TokenEvent.omits, TokenEvent.names, TokenEvent.time, hfull]
      | false =>
        by_cases hlate : tokenStartupGrace ≤ now - registeredAt
        · simp [TokenEvent.names, TokenEvent.time, hlate, Nat.not_lt.mpr hlate]
        · simp [TokenEvent.names, TokenEvent.time, hfull, hlate, Nat.not_le.mp hlate]
  | update active now =>
    show (updateSessionTokens tokens active now).lookup token = _
    rw [lookup_updateSessionTokens, h, Option.bind_some]
    by_cases hin : app ∈ active
    · simp [TokenEvent.omits, TokenEvent.names, TokenEvent.token?, hin]
    · cases seen with
      | true => simp [TokenEvent.omits, hin]
      | false =>
        by_cases hlate : tokenStartupGrace ≤ now - registeredAt
        · simp [TokenEvent.names, TokenEvent.time, hin, hlate, Nat.not_lt.mpr hlate]
        · simp [TokenEvent.names, TokenEvent.time, TokenEvent.token?, hin, hlate,
            Nat.not_le.mp hlate]

/-- One more call. -/
theorem Fate.concat (h : Fate order past token app registeredAt after) (e : TokenEvent Token)
    (hother : e.token? ≠ some token) :
    Fate order past token app registeredAt (after ++ [e]) := by
  have hconcat := gone_concat order past token app registeredAt after e
  have htable : tokensAfter order (past ++ (after ++ [e])) =
      e.apply order (tokensAfter order (past ++ after)) := by
    rw [← List.append_assoc, tokensAfter_concat]
  by_cases hgone : Gone order past token app registeredAt after
  · refine ⟨fun _ => ?_, fun hkept => absurd (hconcat.mpr (.inl hgone)) hkept⟩
    rw [htable]
    exact lookup_apply_none hother (h.gone hgone)
  · have hlookup := lookup_apply_some order hother (h.kept hgone)
    refine ⟨fun hnow => ?_, fun hnow => ?_⟩
    · rw [htable, hlookup, if_pos ((hconcat.mp hnow).resolve_left hgone)]
    · rw [htable, hlookup, if_neg fun hends => hnow (hconcat.mpr (.inr hends)), everActive_concat]

theorem not_happens_nil {α : Type} {P : List α → α → Prop} : ¬ Happens P [] := by
  intro h
  obtain ⟨before, e, rest, heq, _⟩ := h
  exact List.append_ne_nil_of_right_ne_nil before (List.cons_ne_nil e rest) heq.symm

/-- Every token has its fate from the moment of its registration. -/
theorem fate_after (order : TokenOrder Token) (past after : List (TokenEvent Token))
    (token : Token) (app registeredAt : Nat) (hfresh : ∀ e ∈ after, e.token? ≠ some token) :
    Fate order (past ++ [.register token app registeredAt]) token app registeredAt after := by
  induction after using List.reverseRecOn with
  | nil =>
    refine ⟨fun h => ?_, fun _ => ?_⟩
    · rcases h with h | h | h
      · exact absurd h not_happens_nil
      · exact absurd h not_happens_nil
      · exact absurd h not_happens_nil
    · rw [List.append_nil, tokensAfter_concat]
      show (registerToken order _ token app registeredAt).lookup token = _
      unfold registerToken
      rw [Assoc.lookup_insert_eq, if_pos rfl]
      rfl
  | append_singleton after e ih =>
    refine (ih fun x hx => hfresh x (List.mem_append_left _ hx)).concat e ?_
    exact hfresh e (List.mem_append_right _ (List.mem_singleton_self e))

/-- What is in the table was registered. -/
theorem registered_of_lookup {events : List (TokenEvent Token)} {token : Token} {entry : TokenEntry}
    (h : (tokensAfter order events).lookup token = some entry) :
    .register token entry.appId entry.registeredAt ∈ events := by
  induction events using List.reverseRecOn generalizing entry with
  | nil => cases h
  | append_singleton events e ih =>
    rw [tokensAfter_concat] at h
    cases e with
    | register other appId now =>
      by_cases heq : token = other
      · have hself : (registerToken order (tokensAfter order events) other appId now).lookup token =
            some ⟨appId, now, false⟩ := by
          unfold registerToken
          rw [Assoc.lookup_insert_eq, if_pos heq]
        rw [show (TokenEvent.apply order _ (.register other appId now)).lookup token = _ from
          hself] at h
        cases h
        rw [heq]
        exact List.mem_append_right _ (List.mem_singleton_self _)
      · rw [show (TokenEvent.apply order _ (.register other appId now)).lookup token = _ from
          lookup_registerToken heq appId now] at h
        split at h
        · cases h
        · exact List.mem_append_left _ (ih (Option.filter_eq_some_iff.mp h).1)
    | update active now =>
      rw [show (TokenEvent.apply order _ (.update active now)).lookup token = _ from
        lookup_updateSessionTokens active now token] at h
      obtain ⟨old, hold, hnew⟩ := Option.bind_eq_some_iff.mp h
      have hmem := ih hold
      refine List.mem_append_left _ ?_
      split at hnew
      · cases hnew
        exact hmem
      · split at hnew
        · cases hnew
        · split at hnew
          · cases hnew
            exact hmem
          · cases hnew

/-- A handshake is accepted exactly if the token is not gone. -/
theorem accepted_iff (order : TokenOrder Token) (past after : List (TokenEvent Token))
    (token : Token) (app registeredAt : Nat) (hfresh : ∀ e ∈ after, e.token? ≠ some token) :
    handshake (tokensAfter order (past ++ .register token app registeredAt :: after)) token app =
        true ↔
      ¬ Gone order (past ++ [.register token app registeredAt]) token app registeredAt after := by
  have hfate := fate_after order past after token app registeredAt hfresh
  unfold handshake
  rw [List.append_cons]
  constructor
  · intro h hgone
    rw [hfate.gone hgone] at h
    cases h
  · intro hkept
    rw [hfate.kept hkept]
    exact beq_self_eq_true app

end Fate

/-! ## The rule and the table -/

section Payoff

variable {Token : Type}

theorem Revoked.everActive {app : Nat} {after : List (TokenEvent Token)} (h : Revoked app after) :
    everActive app after = true := by
  obtain ⟨before, e, rest, rfl, hactive, _⟩ := h
  unfold Hooks.everActive at hactive ⊢
  rw [List.any_append, hactive, Bool.true_or]

variable [DecidableEq Token]

end Payoff

/-- An app is registered, starts and stops. -/
def startedAndStopped : List (TokenEvent Nat) :=
  [.register 1 440 0, .update [440] 1000000000, .update [] 2000000000]

end VaporForge.Hooks
