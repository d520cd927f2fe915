import VaporForge.Patterns.Search

/-!
# Toast scripts

`toast_script` of `features/src/toast.rs` writes a call into the client's browser. Titles,
texts, icons and targets come from scripts and from the network, and stand in the call between
double quotes.

> Each of the five strings is one string literal that denotes the string, and the tokens of the
> script are the same whatever the strings are (`toast_strings_stay_strings`).

`Denotes` is the grammar of double-quoted literals. A bare quote, backslash or line end has no
rule in it. `js_escape` leaves the control characters from U+007F on as they are
(`delete_character_kept`); below U+0020 there are none.

`scan` splits a script into code and literals. The template has no comment, regular expression
or template literal, so quotes are all there is to look for.
-/

namespace VaporForge.Features

open Patterns

/-! ## The script -/

inductive ToastKind where
  | info
  | warning
  | error
  deriving DecidableEq, Repr

inductive ToastStyle where
  | accent
  | banner
  deriving DecidableEq, Repr

inductive ToastAction where
  | dismiss
  | openSteamUrl (target : List Char)
  | openDeckyRoute (target : List Char)
  deriving DecidableEq, Repr

inductive ToastLogo where
  | default
  | hidden
  | custom (icon : List Char)
  deriving DecidableEq, Repr

structure ToastRequest where
  id : Nat
  kind : ToastKind
  style : ToastStyle
  action : ToastAction
  messageKey : List Char
  title : List Char
  body : List Char
  logo : ToastLogo
  durationMs : Nat
  deriving DecidableEq, Repr

def ToastKind.asJsStr : ToastKind → List Char
  | .info => "info".toList
  | .warning => "warning".toList
  | .error => "error".toList

def ToastKind.critical : ToastKind → List Char
  | .error => "true".toList
  | _ => "false".toList

def ToastStyle.asJsStr : ToastStyle → List Char
  | .accent => "accent".toList
  | .banner => "banner".toList

def ToastAction.asJsKind : ToastAction → List Char
  | .dismiss => "dismiss".toList
  | .openSteamUrl _ => "steam-url".toList
  | .openDeckyRoute _ => "decky-route".toList

def ToastAction.target : ToastAction → List Char
  | .dismiss => []
  | .openSteamUrl target => target
  | .openDeckyRoute target => target

def ToastLogo.asJsMode : ToastLogo → List Char
  | .default => "default".toList
  | .hidden => "hidden".toList
  | .custom _ => "custom".toList

def ToastLogo.icon : ToastLogo → List Char
  | .custom icon => icon
  | _ => []

/-- `DEFAULT_DURATION_MS` -/
def defaultDurationMs : Nat := 5000

/-- `{:04x}` of a number of 16 bits. -/
def hex4 (n : Nat) : List Char :=
  [n / 4096 % 16, n / 256 % 16, n / 16 % 16, n % 16].map Nat.digitChar

/-- The arms of `js_escape`. -/
def jsEscapeChar (ch : Char) : List Char :=
  if ch = '\\' then ['\\', '\\']
  else if ch = '\x22' then ['\\', '\x22']
  else if ch = '\x08' then ['\\', 'b']
  else if ch = '\x0c' then ['\\', 'f']
  else if ch = '\n' then ['\\', 'n']
  else if ch = '\r' then ['\\', 'r']
  else if ch = '\t' then ['\\', 't']
  else if ch.toNat < 0x20 then '\\' :: 'u' :: hex4 ch.toNat
  else [ch]

def jsEscape (input : List Char) : List Char := input.flatMap jsEscapeChar

def quoted (content : List Char) : List Char := '\x22' :: (content ++ ['\x22'])

/-- The script up to its first string. -/
def scriptOpening (id : Nat) (kind : ToastKind) (style : ToastStyle) : List Char :=
  "(function()\x7btry\x7bif(!window.VaporForgeToastBridge||".toList ++
  "!window.VaporForgeToastBridge.showToast)\x7breturn false;\x7d".toList ++
  "window.VaporForgeToastBridge.showToast(\x7bid:".toList ++ Nat.toDigits 10 id ++
  ",kind:".toList ++ quoted kind.asJsStr ++ ",style:".toList ++ quoted style.asJsStr ++
  ",messageKey:".toList

/-- The script between the icon and the target of the action. -/
def scriptSettings (durationMs : Nat) (kind : ToastKind) (actionKind : List Char) : List Char :=
  ",duration:".toList ++
  Nat.toDigits 10 (if durationMs = 0 then defaultDurationMs else durationMs) ++
  ",playSound:true,sound:6,eType:31,critical:".toList ++ kind.critical ++
  ",action:\x7bkind:".toList ++ quoted actionKind ++ ",target:".toList

def scriptClosing : List Char :=
  "\x7d\x7d);return true;\x7dcatch(e)\x7btry\x7bconsole.log(".toList ++
  "'[VaporForgeToast] show error: '+e);\x7dcatch(_)\x7b\x7d\x7d\x7d)();".toList

/-- The format of `toast_script`, with what stands between the quotes of the five strings. -/
def scriptTemplate (toast : ToastRequest) (key title body icon target : List Char) : List Char :=
  scriptOpening toast.id toast.kind toast.style ++ quoted key ++ ",title:".toList ++
  quoted title ++ ",body:".toList ++ quoted body ++ ",logoMode:".toList ++
  quoted toast.logo.asJsMode ++ ",icon:".toList ++ quoted icon ++
  scriptSettings toast.durationMs toast.kind toast.action.asJsKind ++ quoted target ++
  scriptClosing

def toastScript (toast : ToastRequest) : List Char :=
  scriptTemplate toast (jsEscape toast.messageKey) (jsEscape toast.title) (jsEscape toast.body)
    (jsEscape toast.logo.icon) (jsEscape toast.action.target)

/-! ## Literals -/

def singleEscape (c : Char) : Option Char :=
  if c = 'b' then some '\x08' else if c = 't' then some '\t' else if c = 'n' then some '\n'
  else if c = 'v' then some '\x0b' else if c = 'f' then some '\x0c'
  else if c = 'r' then some '\r' else if c = '\x22' then some '\x22'
  else if c = '\x27' then some '\x27' else if c = '\\' then some '\\' else none

/-- What a double-quoted literal with this content denotes. -/
inductive Denotes : List Char → List Char → Prop
  | nil : Denotes [] []
  | plain {c : Char} {text value : List Char} :
      c ≠ '\x22' ∧ c ≠ '\\' ∧ c ≠ '\n' ∧ c ≠ '\r' → Denotes text value →
      Denotes (c :: text) (c :: value)
  | single {e c : Char} {text value : List Char} : singleEscape e = some c →
      Denotes text value → Denotes ('\\' :: e :: text) (c :: value)
  | unicode {digits text value : List Char} {c : Char} : digits.length = 4 →
      digits.foldlM (fun n d => (hexDigit d).map (16 * n + ·)) 0 = some c.toNat →
      Denotes text value → Denotes ('\\' :: 'u' :: (digits ++ text)) (c :: value)

/-- A character is escaped by one character, by four digits, or not at all. -/
theorem jsEscapeChar_cases (c : Char) :
    (∃ e, jsEscapeChar c = ['\\', e] ∧ singleEscape e = some c ∧ 0x20 ≤ e.toNat) ∨
    (jsEscapeChar c = '\\' :: 'u' :: hex4 c.toNat ∧ c.toNat < 0x20) ∨
    (jsEscapeChar c = [c] ∧ 0x20 ≤ c.toNat ∧ c ≠ '\x22' ∧ c ≠ '\\') := by
  have hone : ∀ e d : Char, singleEscape e = some d → 0x20 ≤ e.toNat → c = d →
      jsEscapeChar c = ['\\', e] →
      ∃ e, jsEscapeChar c = ['\\', e] ∧ singleEscape e = some c ∧ 0x20 ≤ e.toNat :=
    fun e _ he hle hc hescape => ⟨e, hescape, hc ▸ he, hle⟩
  by_cases hback : c = '\\'
  · exact .inl (hone '\\' _ rfl (by decide) hback (by rw [hback]; rfl))
  by_cases hquote : c = '\x22'
  · exact .inl (hone '\x22' _ rfl (by decide) hquote (by rw [hquote]; rfl))
  by_cases hb : c = '\x08'
  · exact .inl (hone 'b' _ rfl (by decide) hb (by rw [hb]; rfl))
  by_cases hf : c = '\x0c'
  · exact .inl (hone 'f' _ rfl (by decide) hf (by rw [hf]; rfl))
  by_cases hn : c = '\n'
  · exact .inl (hone 'n' _ rfl (by decide) hn (by rw [hn]; rfl))
  by_cases hr : c = '\r'
  · exact .inl (hone 'r' _ rfl (by decide) hr (by rw [hr]; rfl))
  by_cases ht : c = '\t'
  · exact .inl (hone 't' _ rfl (by decide) ht (by rw [ht]; rfl))
  rw [jsEscapeChar, if_neg hback, if_neg hquote, if_neg hb, if_neg hf, if_neg hn, if_neg hr,
    if_neg ht]
  by_cases hlow : c.toNat < 0x20
  · exact .inr (.inl ⟨if_pos hlow, hlow⟩)
  · exact .inr (.inr ⟨if_neg hlow, Nat.le_of_not_lt hlow, hquote, hback⟩)

theorem hex4_digits : ∀ n < 0x20, (hex4 n).length = 4 ∧
    (hex4 n).foldlM (fun n d => (hexDigit d).map (16 * n + ·)) 0 = some n ∧
    ∀ d ∈ hex4 n, 0x20 ≤ d.toNat ∧ d ≠ '\x22' ∧ d ≠ '\\' := by
  have hall : ∀ n < 0x20, (hex4 n).length = 4 ∧
      (hex4 n).foldlM (fun n d => (hexDigit d).map (16 * n + ·)) 0 = some n ∧
      (hex4 n).all (fun d => 0x20 ≤ d.toNat ∧ d ≠ '\x22' ∧ d ≠ '\\') = true := by
    decide +kernel
  intro n hn
  obtain ⟨hlength, hvalue, hplain⟩ := hall n hn
  exact ⟨hlength, hvalue, fun d hd => of_decide_eq_true (List.all_eq_true.mp hplain d hd)⟩

theorem denotes_jsEscape (input : List Char) : Denotes (jsEscape input) input := by
  induction input with
  | nil => exact .nil
  | cons c input ih =>
    show Denotes (jsEscapeChar c ++ jsEscape input) (c :: input)
    obtain ⟨e, heq, he, _⟩ | ⟨heq, hlow⟩ | ⟨heq, hlow, hquote, hback⟩ := jsEscapeChar_cases c
    · rw [heq]
      exact .single he ih
    · rw [heq]
      obtain ⟨hlen, hdigits, _⟩ := hex4_digits c.toNat hlow
      exact .unicode hlen hdigits ih
    · rw [heq]
      refine .plain ⟨hquote, hback, fun hn => ?_, fun hr => ?_⟩ ih
      · exact absurd (hn ▸ hlow) (by decide)
      · exact absurd (hr ▸ hlow) (by decide)

theorem le_of_mem_jsEscape {input : List Char} {c : Char} (h : c ∈ jsEscape input) :
    0x20 ≤ c.toNat := by
  obtain ⟨d, _, hd⟩ := List.mem_flatMap.mp h
  obtain ⟨e, heq, _, hlow⟩ | ⟨heq, hlow⟩ | ⟨heq, hlow, _⟩ := jsEscapeChar_cases d
  · rw [heq, List.mem_pair] at hd
    obtain rfl | rfl := hd
    · decide
    · exact hlow
  · rw [heq, List.mem_cons, List.mem_cons] at hd
    obtain rfl | rfl | hd := hd
    · decide
    · decide
    · exact ((hex4_digits d.toNat hlow).2.2 c hd).1
  · rw [heq, List.mem_singleton] at hd
    rw [hd]
    exact hlow

/-! ## Tokens -/

/-- Where a script stands: in code, in a literal, or behind a backslash in one. -/
inductive Mode where
  | code
  | literal (quote : Char)
  | escape (quote : Char)
  deriving DecidableEq, Repr

/-- One character. A literal is one token, whatever it holds. -/
def Mode.step : Mode → Char → Mode × List (Option Char)
  | .code, c => if c = '\x22' ∨ c = '\x27' then (.literal c, [none]) else (.code, [some c])
  | .literal quote, c =>
    if c = '\\' then (.escape quote, []) else if c = quote then (.code, []) else (.literal quote, [])
  | .escape quote, _ => (.literal quote, [])

def scan : Mode → List Char → Mode × List (Option Char)
  | mode, [] => (mode, [])
  | mode, c :: text =>
    let next := mode.step c
    let rest := scan next.1 text
    (rest.1, next.2 ++ rest.2)

/-- The characters of the code, with a mark for each literal. -/
def tokens (script : List Char) : List (Option Char) := (scan .code script).2

theorem scan_append (mode : Mode) (a b : List Char) :
    scan mode (a ++ b) =
      ((scan (scan mode a).1 b).1, (scan mode a).2 ++ (scan (scan mode a).1 b).2) := by
  induction a generalizing mode with
  | nil => rfl
  | cons c a ih =>
    simp only [List.cons_append, scan, ih, List.append_assoc]

theorem scan_jsEscapeChar (c : Char) :
    scan (.literal '\x22') (jsEscapeChar c) = (.literal '\x22', []) := by
  obtain ⟨e, heq, _⟩ | ⟨heq, hlow⟩ | ⟨heq, _, hquote, hback⟩ := jsEscapeChar_cases c
  · rw [heq]
    rfl
  · rw [heq]
    obtain ⟨_, _, hdigits⟩ := hex4_digits c.toNat hlow
    show scan (.literal '\x22') (hex4 c.toNat) = _
    -- the digits are neither quotes nor backslashes
    generalize hex4 c.toNat = digits at hdigits
    induction digits with
    | nil => rfl
    | cons d digits ih =>
      obtain ⟨_, hquote, hback⟩ := hdigits d List.mem_cons_self
      rw [scan, Mode.step, if_neg hback, if_neg hquote]
      exact ih fun d hd => hdigits d (.tail _ hd)
  · rw [heq, scan, Mode.step, if_neg hback, if_neg hquote]
    rfl

/-- A string is one token, and the code goes on behind it. -/
theorem scan_quoted (input : List Char) : scan .code (quoted (jsEscape input)) = (.code, [none]) := by
  have hinside : scan (.literal '\x22') (jsEscape input) = (.literal '\x22', []) := by
    induction input with
    | nil => rfl
    | cons c input ih =>
      show scan (.literal '\x22') (jsEscapeChar c ++ jsEscape input) = _
      rw [scan_append, scan_jsEscapeChar, ih]
      rfl
  have hclose : scan (.literal '\x22') (jsEscape input ++ ['\x22']) = (.code, []) := by
    rw [scan_append, hinside]
    rfl
  show ((scan (.literal '\x22') (jsEscape input ++ ['\x22'])).1,
    [none] ++ (scan (.literal '\x22') (jsEscape input ++ ['\x22'])).2) = _
  rw [hclose]
  rfl

theorem scan_digits (n : Nat) : (scan .code (Nat.toDigits 10 n)).1 = .code := by
  have hdigits : ∀ c ∈ Nat.toDigits 10 n, c ≠ '\x22' ∧ c ≠ '\x27' := by
    intro c hc
    have hdigit := Nat.isDigit_of_mem_toDigits (by decide) (by decide) hc
    refine ⟨fun h => ?_, fun h => ?_⟩
    · exact absurd (h ▸ hdigit) (by decide)
    · exact absurd (h ▸ hdigit) (by decide)
  generalize Nat.toDigits 10 n = digits at hdigits
  induction digits with
  | nil => rfl
  | cons c digits ih =>
    obtain ⟨hdouble, hsingle⟩ := hdigits c List.mem_cons_self
    rw [scan, Mode.step, if_neg (not_or.mpr ⟨hdouble, hsingle⟩)]
    exact ih fun c hc => hdigits c (.tail _ hc)

/-- Code that leaves no literal open. -/
def Closed (code : List Char) : Prop := (scan .code code).1 = .code

theorem Closed.append {a b : List Char} (ha : Closed a) (hb : Closed b) : Closed (a ++ b) := by
  rw [Closed, scan_append, ha]
  exact hb

theorem tokens_append {a : List Char} (ha : Closed a) (b : List Char) :
    tokens (a ++ b) = tokens a ++ tokens b := by
  rw [tokens, scan_append, ha]
  rfl

theorem closed_quoted (input : List Char) : Closed (quoted (jsEscape input)) :=
  congrArg Prod.fst (scan_quoted input)

theorem tokens_quoted (input : List Char) : tokens (quoted (jsEscape input)) = [none] :=
  congrArg Prod.snd (scan_quoted input)

theorem closed_opening (id : Nat) (kind : ToastKind) (style : ToastStyle) :
    Closed (scriptOpening id kind style) := by
  have hkind : Closed (quoted kind.asJsStr) := by cases kind <;> rfl
  have hstyle : Closed (quoted style.asJsStr) := by cases style <;> rfl
  refine .append (.append (.append (.append (.append (.append ?_ (scan_digits _)) rfl) hkind) rfl)
    hstyle) rfl
  unfold Closed
  decide +kernel

theorem closed_logo (toast : ToastRequest) :
    Closed (",logoMode:".toList ++ quoted toast.logo.asJsMode ++ ",icon:".toList) := by
  have hmode : Closed (quoted toast.logo.asJsMode) := by cases toast.logo <;> rfl
  exact .append (.append rfl hmode) rfl

theorem closed_settings (durationMs : Nat) (kind : ToastKind) (action : ToastAction) :
    Closed (scriptSettings durationMs kind action.asJsKind) := by
  have hcritical : Closed kind.critical := by cases kind <;> rfl
  have hkind : Closed (quoted action.asJsKind) := by cases action <;> rfl
  exact .append (.append (.append (.append (.append (.append rfl (scan_digits _)) rfl) hcritical)
    rfl) hkind) rfl

/-- The code of the template, with a mark where a string stands. -/
theorem tokens_toastScript (toast : ToastRequest) :
    tokens (toastScript toast) =
      tokens (scriptOpening toast.id toast.kind toast.style) ++ [none] ++
      tokens ",title:".toList ++ [none] ++ tokens ",body:".toList ++ [none] ++
      tokens (",logoMode:".toList ++ quoted toast.logo.asJsMode ++ ",icon:".toList) ++ [none] ++
      tokens (scriptSettings toast.durationMs toast.kind toast.action.asJsKind) ++ [none] ++
      tokens scriptClosing := by
  have htitle : Closed ",title:".toList := rfl
  have hbody : Closed ",body:".toList := rfl
  have hlogo := closed_logo toast
  generalize hcode : ",logoMode:".toList ++ quoted toast.logo.asJsMode ++ ",icon:".toList = logo
    at hlogo ⊢
  generalize hopen : scriptOpening toast.id toast.kind toast.style = opening
  generalize hset : scriptSettings toast.durationMs toast.kind toast.action.asJsKind = settings
  have hopening : Closed opening := hopen ▸ closed_opening _ _ _
  have hsettings : Closed settings := hset ▸ closed_settings _ _ _
  have hscript : toastScript toast = opening ++ (quoted (jsEscape toast.messageKey) ++
      (",title:".toList ++ (quoted (jsEscape toast.title) ++ (",body:".toList ++
      (quoted (jsEscape toast.body) ++ (logo ++ (quoted (jsEscape toast.logo.icon) ++
      (settings ++ (quoted (jsEscape toast.action.target) ++ scriptClosing))))))))) := by
    rw [← hcode, ← hopen, ← hset]
    simp only [toastScript, scriptTemplate, List.append_assoc]
  rw [hscript, tokens_append hopening, tokens_append (closed_quoted _),
    tokens_append htitle, tokens_append (closed_quoted _), tokens_append hbody,
    tokens_append (closed_quoted _), tokens_append hlogo, tokens_append (closed_quoted _),
    tokens_append hsettings, tokens_append (closed_quoted _)]
  simp only [tokens_quoted, List.append_assoc]

/-! ## Any strings -/

/-- The same request with other strings. -/
def ToastRequest.withStrings (toast : ToastRequest) (messageKey title body icon target : List Char) :
    ToastRequest :=
  { toast with
    messageKey, title, body
    logo := match toast.logo with
      | .custom _ => .custom icon
      | logo => logo
    action := match toast.action with
      | .dismiss => .dismiss
      | .openSteamUrl _ => .openSteamUrl target
      | .openDeckyRoute _ => .openDeckyRoute target }

/-- A content that denotes the string and has no control character below U+0020. -/
def LiteralFor (content value : List Char) : Prop :=
  Denotes content value ∧ ∀ c ∈ content, 0x20 ≤ c.toNat

theorem literalFor_jsEscape (input : List Char) : LiteralFor (jsEscape input) input :=
  ⟨denotes_jsEscape input, fun _ => le_of_mem_jsEscape⟩

/-- The script is the template with one literal for each string, and its tokens do not depend
on the strings. -/
theorem toast_strings_stay_strings (toast : ToastRequest) :
    (∃ key title body icon target : List Char,
      toastScript toast = scriptTemplate toast key title body icon target ∧
      LiteralFor key toast.messageKey ∧ LiteralFor title toast.title ∧
      LiteralFor body toast.body ∧ LiteralFor icon toast.logo.icon ∧
      LiteralFor target toast.action.target) ∧
    ∀ messageKey title body icon target : List Char,
      tokens (toastScript (toast.withStrings messageKey title body icon target)) =
        tokens (toastScript toast) := by
  refine ⟨⟨_, _, _, _, _, rfl, literalFor_jsEscape _, literalFor_jsEscape _,
    literalFor_jsEscape _, literalFor_jsEscape _, literalFor_jsEscape _⟩, ?_⟩
  intro messageKey title body icon target
  generalize hother : toast.withStrings messageKey title body icon target = other
  have hmode : other.logo.asJsMode = toast.logo.asJsMode := by
    rw [← hother, ToastRequest.withStrings]
    cases toast.logo <;> rfl
  have haction : other.action.asJsKind = toast.action.asJsKind := by
    rw [← hother, ToastRequest.withStrings]
    cases toast.action <;> rfl
  have hid : other.id = toast.id := by rw [← hother, ToastRequest.withStrings]
  have hkind : other.kind = toast.kind := by rw [← hother, ToastRequest.withStrings]
  have hstyle : other.style = toast.style := by rw [← hother, ToastRequest.withStrings]
  have hduration : other.durationMs = toast.durationMs := by
    rw [← hother, ToastRequest.withStrings]
  rw [tokens_toastScript, tokens_toastScript, hid, hkind, hstyle, hmode, haction, hduration]

/-- A title of one control character stands in the script as it is. -/
theorem delete_character_kept : ∃ toast : ToastRequest,
    toast.title = ['\x7f'] ∧ '\x7f' ∈ toastScript toast := by
  let toast : ToastRequest := ⟨1, .info, .accent, .dismiss, [], ['\x7f'], [], .default, 0⟩
  have hmem : '\x7f' ∈ quoted (jsEscape toast.title) := by decide
  refine ⟨toast, rfl, ?_⟩
  simp only [toastScript, scriptTemplate, List.mem_append, hmem, true_or, or_true]

end VaporForge.Features
