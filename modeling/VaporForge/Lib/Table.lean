import Std.Data.ExtTreeMap

/-!
# Record tables whose identities are minted once

A `Table R` is a set of records, each under an identity the table minted when
the record was inserted. The field `fresh` is the whole guarantee of the
minting: no identity from `next` on has ever been used, so an identity read
once never comes back with another record's content (`read_insert_of_lt`).

On top of it sits the versioned-handout pattern. A caller is handed a copy of
a record together with a version number, works on it for as long as it likes,
and settles it later by identity and version. `Evolves` says once what a write
may do to a record (drop it, keep version *and* value, or move the version
up); every write discipline with that property makes a handout `Vouched` for
the rest of its life: whoever finds its version again finds its value again.
-/

namespace Lib

structure Table (R : Type) where
  rows : Std.ExtTreeMap Nat R compare
  next : Nat
  fresh : ∀ id, next ≤ id → rows[id]? = none

/-- The order in which a query returns the rows it matches. An index scan
promises none, so an operation takes the arrangement as an argument. -/
structure FetchOrder (R : Type) where
  arrange : List (Nat × R) → List (Nat × R)
  perm : ∀ rows, (arrange rows).Perm rows

namespace FetchOrder

/-- Rows in the order they were minted. -/
def minted {R : Type} : FetchOrder R := ⟨id, fun _ => .rfl⟩

end FetchOrder

namespace Table

variable {R : Type}

def empty : Table R := ⟨∅, 0, fun _ _ => by simp⟩

def read (t : Table R) (id : Nat) : Option R := t.rows[id]?

def insert (t : Table R) (r : R) : Table R where
  rows := t.rows.insert t.next r
  next := t.next + 1
  fresh := by
    intro id hid
    rw [Std.ExtTreeMap.getElem?_insert, if_neg]
    · exact t.fresh id (by omega)
    · simp only [Nat.compare_eq_eq]
      omega

/-- Overwrite the record under `id`; an identity the table does not hold stays
unused. -/
def update (t : Table R) (id : Nat) (r : R) : Table R where
  rows := t.rows.modify id fun _ => r
  next := t.next
  fresh := by
    intro id' hid
    rw [Std.ExtTreeMap.getElem?_modify]
    split
    · next heq =>
      rw [Nat.compare_eq_eq] at heq
      rw [heq, t.fresh id' hid]
      rfl
    · exact t.fresh id' hid

def delete (t : Table R) (id : Nat) : Table R where
  rows := t.rows.erase id
  next := t.next
  fresh := by
    intro id' hid
    rw [Std.ExtTreeMap.getElem?_erase, t.fresh id' hid]
    split <;> rfl

/-- The rows satisfying `p`, in the order the query happens to return them. -/
def fetch (t : Table R) (order : FetchOrder R) (p : R → Bool) : List (Nat × R) :=
  order.arrange (t.rows.toList.filter fun row => p row.2)

/-! ## Reading back -/

@[simp] theorem read_empty (id : Nat) : (empty : Table R).read id = none := by
  simp [read, empty]

variable {t t' : Table R} {r r' : R} {order : FetchOrder R} {p : R → Bool} {row : Nat × R}

variable {id : Nat} {ids : List Nat}

theorem read_eq_none_of_le (h : t.next ≤ id) : t.read id = none :=
  t.fresh id h

theorem lt_next_of_read (h : t.read id = some r) : id < t.next := by
  rcases Nat.lt_or_ge id t.next with hlt | hge
  · exact hlt
  · rw [read_eq_none_of_le hge] at h
    exact absurd h (by simp)

theorem read_insert (t : Table R) (r : R) (id : Nat) :
    (t.insert r).read id = if id = t.next then some r else t.read id := by
  show (t.rows.insert t.next r)[id]? = _
  rw [Std.ExtTreeMap.getElem?_insert]
  by_cases h : id = t.next
  · rw [if_pos h, if_pos (by rw [h]; exact Nat.compare_eq_eq.mpr rfl)]
  · rw [if_neg h, if_neg (by simp only [Nat.compare_eq_eq]; exact fun e => h e.symm)]
    rfl

/-- An insertion leaves every identity minted before it alone. -/
theorem read_insert_of_lt (h : id < t.next) : (t.insert r).read id = t.read id := by
  rw [read_insert, if_neg (by omega)]

theorem read_update (t : Table R) (id : Nat) (r : R) (id' : Nat) :
    (t.update id r).read id' =
      if id' = id then (t.read id).map (fun _ => r) else t.read id' := by
  show (t.rows.modify id fun _ => r)[id']? = _
  rw [Std.ExtTreeMap.getElem?_modify]
  by_cases h : id' = id
  · subst h
    rw [if_pos rfl, if_pos (Nat.compare_eq_eq.mpr rfl)]
    rfl
  · rw [if_neg h, if_neg (by simp only [Nat.compare_eq_eq]; exact fun e => h e.symm)]
    rfl

theorem read_update_of_ne {id' : Nat} (h : id' ≠ id) : (t.update id r).read id' = t.read id' := by
  rw [read_update, if_neg h]

theorem read_delete (t : Table R) (id id' : Nat) :
    (t.delete id).read id' = if id' = id then none else t.read id' := by
  show (t.rows.erase id)[id']? = _
  rw [Std.ExtTreeMap.getElem?_erase]
  by_cases h : id' = id
  · rw [if_pos h, if_pos (by rw [h]; exact Nat.compare_eq_eq.mpr rfl)]
  · rw [if_neg h, if_neg (by simp only [Nat.compare_eq_eq]; exact fun e => h e.symm)]
    rfl

@[simp] theorem next_delete (t : Table R) (id : Nat) : (t.delete id).next = t.next := rfl

theorem mem_fetch : (id, r) ∈ t.fetch order p ↔ t.read id = some r ∧ p r = true := by
  rw [fetch, (order.perm _).mem_iff, List.mem_filter,
    Std.ExtTreeMap.mem_toList_iff_getElem?_eq_some]
  rfl

/-- The row a query returns first is one of the rows it matches. -/
theorem head?_fetch (h : (t.fetch order p).head? = some row) :
    t.read row.1 = some row.2 ∧ p row.2 = true :=
  mem_fetch.mp (List.mem_of_head? h)

/-- A query returns no row twice. -/
theorem nodup_fetch (t : Table R) (order : FetchOrder R) (p : R → Bool) :
    ((t.fetch order p).map Prod.fst).Nodup := by
  have hrows : (t.rows.toList.map Prod.fst).Nodup := by
    rw [List.nodup_iff_pairwise_ne, List.pairwise_map]
    refine t.rows.distinct_keys_toList.imp ?_
    intro a b hne heq
    exact hne (Nat.compare_eq_eq.mpr heq)
  have hkept : ((t.rows.toList.filter fun row => p row.2).map Prod.fst).Nodup :=
    hrows.sublist (List.filter_sublist.map Prod.fst)
  exact ((order.perm _).map Prod.fst).nodup_iff.mpr hkept

/-- What a loop over fetched rows finds under their identities. -/
theorem eq_of_mem_fetch (h : row ∈ t.fetch order p) : ∀ r, t.read row.1 = some r → r = row.2 := by
  intro r hr
  rw [(mem_fetch.mp h).1, Option.some.injEq] at hr
  exact hr.symm

/-- Deleting a batch of identities leaves the rest as it was. -/
theorem read_foldl_delete_iff :
    (ids.foldl delete t).read id = some r ↔ id ∉ ids ∧ t.read id = some r := by
  induction ids generalizing t with
  | nil => simp
  | cons i ids ih =>
    rw [List.foldl_cons, ih, read_delete, List.mem_cons, not_or]
    by_cases h : id = i
    · simp [h]
    · simp [h]

theorem read_foldl_delete (h : (ids.foldl delete t).read id = some r) : t.read id = some r :=
  (read_foldl_delete_iff.mp h).2

/-- Deleting the rows a query found leaves those it did not match. -/
theorem read_delete_rows {rows : List (Nat × R)} {p : R → Prop}
    (hrows : ∀ id r, (id, r) ∈ rows ↔ t.read id = some r ∧ p r) :
    ((rows.map Prod.fst).foldl delete t).read id = some r ↔ t.read id = some r ∧ ¬ p r := by
  rw [read_foldl_delete_iff, and_comm]
  refine and_congr_right fun hread => not_congr ?_
  rw [List.mem_map]
  constructor
  · rintro ⟨row, hrow, hid⟩
    obtain ⟨hfound, hp⟩ := (hrows row.1 row.2).mp hrow
    rw [hid, hread, Option.some.injEq] at hfound
    exact hfound ▸ hp
  · intro hp
    exact ⟨(id, r), (hrows id r).mpr ⟨hread, hp⟩, rfl⟩

@[simp] theorem next_foldl_delete (ids : List Nat) (t : Table R) :
    (ids.foldl delete t).next = t.next := by
  induction ids generalizing t with
  | nil => rfl
  | cons i ids ih => rw [List.foldl_cons, ih, next_delete]

/-! ## Unique keys -/

section UniqueKey

variable {K : Type} (key : R → K)

/-- No two records of the table share a key. -/
def Unique (t : Table R) : Prop :=
  ∀ ⦃id id' r r'⦄, t.read id = some r → t.read id' = some r' → key r = key r' → id = id'

variable {key}

theorem unique_empty : Unique key (empty : Table R) := by
  intro id id' r r' hr
  rw [read_empty] at hr
  exact absurd hr (by simp)

/-- Writes that neither add a record nor change a key keep keys unique. -/
theorem Unique.of_read (h : Unique key t)
    (hread : ∀ id r', t'.read id = some r' → ∃ r, t.read id = some r ∧ key r = key r') :
    Unique key t' := by
  intro id id' r r' hr hr' hkey
  obtain ⟨s, hs, hks⟩ := hread id r hr
  obtain ⟨s', hs', hks'⟩ := hread id' r' hr'
  exact h hs hs' (hks.trans (hkey.trans hks'.symm))

theorem Unique.insert (h : Unique key t) (hnew : ∀ id s, t.read id = some s → key s ≠ key r) :
    Unique key (t.insert r) := by
  intro id id' s s' hs hs' hkey
  rw [read_insert] at hs hs'
  split at hs <;> split at hs'
  · next heq heq' => exact heq.trans heq'.symm
  · cases hs
    exact absurd hkey.symm (hnew id' s' hs')
  · cases hs'
    exact absurd hkey (hnew id s hs)
  · exact h hs hs' hkey

/-- Overwriting a record by one of the same key keeps keys unique. -/
theorem Unique.update (h : Unique key t) (hsame : ∀ r, t.read id = some r → key r = key r') :
    Unique key (t.update id r') := by
  refine h.of_read fun i s hs => ?_
  rw [read_update] at hs
  split at hs
  · next heq =>
    obtain ⟨r, hr, rfl⟩ := Option.map_eq_some_iff.mp hs
    exact ⟨r, heq ▸ hr, hsame r hr⟩
  · exact ⟨s, hs, rfl⟩

/-- A query by key that finds nothing: no record has the key. -/
theorem head?_fetch_eq_none :
    (t.fetch order p).head? = none ↔ ∀ id r, t.read id = some r → p r = false := by
  rw [List.head?_eq_none_iff, List.eq_nil_iff_forall_not_mem]
  refine ⟨fun h id r hr => ?_, fun h row hrow => ?_⟩
  · by_cases hp : p r = true
    · exact absurd (mem_fetch.mpr ⟨hr, hp⟩) (h (id, r))
    · exact Bool.eq_false_iff.mpr hp
  · obtain ⟨hr, hp⟩ := mem_fetch.mp hrow
    rw [h row.1 row.2 hr] at hp
    exact absurd hp (by simp)

variable {k : K}

/-- With unique keys, a query by key answers with the one record of that key. -/
theorem Unique.head?_fetch_iff (h : Unique key t) (hp : ∀ r, p r = true ↔ key r = k) :
    (t.fetch order p).head? = some row ↔ t.read row.1 = some row.2 ∧ key row.2 = k := by
  refine ⟨fun hrow => ?_, fun ⟨hread, hkey⟩ => ?_⟩
  · obtain ⟨hread, hp'⟩ := Table.head?_fetch hrow
    exact ⟨hread, (hp row.2).mp hp'⟩
  · cases hhead : (t.fetch order p).head? with
    | none =>
      have hpr := head?_fetch_eq_none.mp hhead row.1 row.2 hread
      rw [(hp row.2).mpr hkey] at hpr
      exact absurd hpr (by simp)
    | some found =>
      obtain ⟨hfound, hp'⟩ := Table.head?_fetch hhead
      have hid := h hfound hread (((hp found.2).mp hp').trans hkey.symm)
      rw [hid, hread, Option.some.injEq] at hfound
      exact congrArg some (Prod.ext hid hfound.symm)

variable [DecidableEq K] (key)

/-- The record of a key, in a table whose keys are unique. -/
def find (t : Table R) (k : K) : Option R :=
  ((t.fetch .minted fun r => decide (key r = k)).head?).map Prod.snd

variable {key}

theorem Unique.find_eq_some (h : Unique key t) :
    t.find key k = some r ↔ ∃ id, t.read id = some r ∧ key r = k := by
  have hhead : ∀ row : Nat × R, (t.fetch .minted fun r => decide (key r = k)).head? = some row ↔
      t.read row.1 = some row.2 ∧ key row.2 = k :=
    fun _ => h.head?_fetch_iff fun _ => decide_eq_true_iff
  unfold find
  rw [Option.map_eq_some_iff]
  constructor
  · rintro ⟨row, hrow, heq⟩
    subst heq
    exact ⟨row.1, (hhead row).mp hrow⟩
  · rintro ⟨id, hr⟩
    exact ⟨(id, r), (hhead (id, r)).mpr hr, rfl⟩

theorem find_eq_none : t.find key k = none ↔ ∀ id r, t.read id = some r → key r ≠ k := by
  unfold find
  rw [Option.map_eq_none_iff, head?_fetch_eq_none]
  simp only [decide_eq_false_iff_not, ne_eq]

/-- The record of a key after a write, from what the write does to each row. -/
theorem Unique.find_eq (h : Unique key t) {found : Option R}
    (hiff : ∀ r, (∃ id, t.read id = some r ∧ key r = k) ↔ found = some r) :
    t.find key k = found := by
  ext r
  exact h.find_eq_some.trans (hiff r)

theorem Unique.find_insert (h : Unique key t) (hnew : ∀ id s, t.read id = some s → key s ≠ key r)
    (k : K) : (t.insert r).find key k = if key r = k then some r else t.find key k := by
  refine (h.insert hnew).find_eq fun s => ?_
  split
  · next hk =>
    subst hk
    constructor
    · rintro ⟨id, hread, hkey⟩
      rw [read_insert] at hread
      split at hread
      · exact hread
      · exact absurd hkey (hnew id s hread)
    · intro hs
      cases hs
      exact ⟨t.next, by rw [read_insert, if_pos rfl], rfl⟩
  · next hk =>
    rw [h.find_eq_some]
    constructor
    · rintro ⟨id, hread, hkey⟩
      rw [read_insert] at hread
      split at hread
      · cases hread
        exact absurd hkey hk
      · exact ⟨id, hread, hkey⟩
    · rintro ⟨id, hread, hkey⟩
      exact ⟨id, by rw [read_insert_of_lt (lt_next_of_read hread)]; exact hread, hkey⟩

theorem Unique.find_update (h : Unique key t) (hread : t.read id = some r) (hsame : key r = key r')
    (k : K) : (t.update id r').find key k = if key r' = k then some r' else t.find key k := by
  have hupdated : (t.update id r').read id = some r' := by
    rw [read_update, if_pos rfl, hread]
    rfl
  have hunique : Unique key (t.update id r') := h.update fun s hs => by
    rw [hread, Option.some.injEq] at hs
    exact hs ▸ hsame
  refine hunique.find_eq fun s => ?_
  split
  · next hk =>
    constructor
    · rintro ⟨id', hs, hkey⟩
      have hid := hunique hs hupdated (hkey.trans hk.symm)
      rw [hid, hupdated] at hs
      exact hs
    · intro hs
      cases hs
      exact ⟨id, hupdated, hk⟩
  · next hk =>
    rw [h.find_eq_some]
    constructor
    · rintro ⟨id', hs, hkey⟩
      have hne : id' ≠ id := by
        intro heq
        rw [heq, hupdated, Option.some.injEq] at hs
        exact hk (hs ▸ hkey)
      exact ⟨id', by rwa [read_update_of_ne hne] at hs, hkey⟩
    · rintro ⟨id', hs, hkey⟩
      have hne : id' ≠ id := by
        intro heq
        rw [heq, hread, Option.some.injEq] at hs
        exact hk (hsame ▸ hs ▸ hkey)
      exact ⟨id', by rwa [read_update_of_ne hne], hkey⟩

/-- A write that leaves the values, and with them the keys, alone leaves the
value of every key alone. -/
theorem Unique.map_find_congr {β : Type} {value : R → β} (h : Unique key t)
    (hkey : ∀ r r', value r = value r' → key r = key r')
    (hread : ∀ id, (t'.read id).map value = (t.read id).map value) (k : K) :
    (t'.find key k).map value = (t.find key k).map value := by
  have hback : ∀ id r', t'.read id = some r' → ∃ r, t.read id = some r ∧ value r = value r' := by
    intro id r' hr'
    have hid := hread id
    rw [hr', Option.map_some] at hid
    exact Option.map_eq_some_iff.mp hid.symm
  have hforth : ∀ id r, t.read id = some r → ∃ r', t'.read id = some r' ∧ value r' = value r := by
    intro id r hr
    have hid := hread id
    rw [hr, Option.map_some] at hid
    exact Option.map_eq_some_iff.mp hid
  have h' : Unique key t' := h.of_read fun id r' hr' =>
    let ⟨r, hr, hv⟩ := hback id r' hr'
    ⟨r, hr, hkey _ _ hv⟩
  ext v
  rw [Option.map_eq_some_iff, Option.map_eq_some_iff]
  constructor
  · rintro ⟨r', hr', hv⟩
    obtain ⟨id, hread', hk⟩ := h'.find_eq_some.mp hr'
    obtain ⟨r, hr, hvr⟩ := hback id r' hread'
    exact ⟨r, h.find_eq_some.mpr ⟨id, hr, (hkey _ _ hvr).trans hk⟩, hvr.trans hv⟩
  · rintro ⟨r, hr, hv⟩
    obtain ⟨id, hread', hk⟩ := h.find_eq_some.mp hr
    obtain ⟨r', hr', hvr⟩ := hforth id r hread'
    exact ⟨r', h'.find_eq_some.mpr ⟨id, hr', (hkey _ _ hvr).trans hk⟩, hvr.trans hv⟩

end UniqueKey

/-! ## Versioned handouts -/

section Versioned

variable {β : Type} (version : R → Nat) (value : R → β)

/-- `r'` may stand where `r` stood: its version is no older, and an unmoved
version means an unmoved value. -/
def Supersedes (r r' : R) : Prop :=
  version r ≤ version r' ∧ (version r = version r' → value r = value r')

/-- Everything a run of writes may do to the records of a table: identities are
only added at the end, and a record that survives is superseded by what is
stored now. -/
def Evolves (t t' : Table R) : Prop :=
  t.next ≤ t'.next ∧
    ∀ id r', id < t.next → t'.read id = some r' →
      ∃ r, t.read id = some r ∧ Supersedes version value r r'

/-- A copy handed out under `id` and version `ver` still tells the truth: the
record is gone, or it has moved past `ver`, or it holds exactly `val`. -/
def Vouched (t : Table R) (id : Nat) (ver : Nat) (val : β) : Prop :=
  id < t.next ∧
    ∀ r, t.read id = some r → ver ≤ version r ∧ (ver = version r → value r = val)

variable {version value}

theorem Supersedes.refl (r : R) : Supersedes version value r r := ⟨Nat.le_refl _, fun _ => rfl⟩

theorem Supersedes.trans {r'' : R} (h : Supersedes version value r r')
    (h' : Supersedes version value r' r'') : Supersedes version value r r'' := by
  refine ⟨Nat.le_trans h.1 h'.1, fun heq => ?_⟩
  -- the outer versions agree, so the middle one is squeezed between them
  have hmid : version r = version r' := Nat.le_antisymm h.1 (by rw [heq]; exact h'.1)
  exact (h.2 hmid).trans (h'.2 (hmid ▸ heq))

theorem Evolves.refl (t : Table R) : Evolves version value t t :=
  ⟨Nat.le_refl _, fun _ r' _ hr => ⟨r', hr, .refl r'⟩⟩

theorem Evolves.trans {t'' : Table R} (h : Evolves version value t t')
    (h' : Evolves version value t' t'') : Evolves version value t t'' := by
  refine ⟨Nat.le_trans h.1 h'.1, fun id r'' hid hr'' => ?_⟩
  obtain ⟨r', hr', hsup'⟩ := h'.2 id r'' (Nat.lt_of_lt_of_le hid h.1) hr''
  obtain ⟨r, hr, hsup⟩ := h.2 id r' hid hr'
  exact ⟨r, hr, hsup.trans hsup'⟩

theorem evolves_insert (t : Table R) (r : R) : Evolves version value t (t.insert r) := by
  refine ⟨Nat.le_succ _, fun id r' hid hr' => ?_⟩
  rw [read_insert_of_lt hid] at hr'
  exact ⟨r', hr', .refl r'⟩

theorem evolves_delete (t : Table R) (id : Nat) : Evolves version value t (t.delete id) := by
  refine ⟨Nat.le_refl _, fun id' r' _ hr' => ?_⟩
  rw [read_delete] at hr'
  split at hr'
  · exact absurd hr' (by simp)
  · exact ⟨r', hr', .refl r'⟩

/-- An update evolves the table when what it stores supersedes what it finds. -/
theorem evolves_update (hsup : ∀ r, t.read id = some r → Supersedes version value r r') :
    Evolves version value t (t.update id r') := by
  refine ⟨Nat.le_refl _, fun id' s hid hs => ?_⟩
  rw [read_update] at hs
  split at hs
  · next heq =>
    subst heq
    obtain ⟨r, hr, rfl⟩ := Option.map_eq_some_iff.mp hs
    exact ⟨r, hr, hsup r hr⟩
  · exact ⟨s, hs, .refl s⟩

/-- Folding writes that each evolve the table evolves the table. -/
theorem evolves_foldl {α : Type} {write : Table R → α → Table R} (l : List α)
    (h : ∀ t a, a ∈ l → Evolves version value t (write t a)) (t : Table R) :
    Evolves version value t (l.foldl write t) := by
  induction l generalizing t with
  | nil => exact .refl t
  | cons a l ih =>
    rw [List.foldl_cons]
    exact (h t a (List.mem_cons_self ..)).trans
      (ih (fun t b hb => h t b (List.mem_cons_of_mem _ hb)) _)

/-- A loop over rows fetched before it began. Its body may rely on finding its
own row untouched or gone, provided no turn rewrites another turn's row. -/
theorem evolves_foldl_rows {write : Table R → Nat × R → Table R}
    (hstep : ∀ t row, (∀ r, t.read row.1 = some r → r = row.2) →
      Evolves version value t (write t row))
    (hother : ∀ t row id r, id ≠ row.1 → (write t row).read id = some r → t.read id = some r) :
    ∀ (rows : List (Nat × R)) (t : Table R), (rows.map Prod.fst).Nodup →
      (∀ row ∈ rows, ∀ r, t.read row.1 = some r → r = row.2) →
      Evolves version value t (rows.foldl write t) := by
  intro rows
  induction rows with
  | nil => intro t _ _; exact .refl t
  | cons row rows ih =>
    intro t hnodup hrows
    rw [List.map_cons, List.nodup_cons] at hnodup
    rw [List.foldl_cons]
    refine (hstep t row (hrows row (List.mem_cons_self ..))).trans (ih _ hnodup.2 ?_)
    intro other hmem r hr
    have hne : other.1 ≠ row.1 := by
      intro heq
      exact hnodup.1 (heq ▸ List.mem_map_of_mem hmem)
    exact hrows other (List.mem_cons_of_mem _ hmem) r (hother t row _ r hne hr)

/-- A copy is vouched for when it is taken. -/
theorem vouched_of_read (h : t.read id = some r) :
    Vouched version value t id (version r) (value r) := by
  refine ⟨lt_next_of_read h, fun r' hr' => ?_⟩
  rw [h, Option.some.injEq] at hr'
  subst hr'
  exact ⟨Nat.le_refl _, fun _ => rfl⟩

/-- Evolution never breaks a handout. -/
theorem Vouched.evolves {ver : Nat} {val : β} (h : Vouched version value t id ver val)
    (he : Evolves version value t t') : Vouched version value t' id ver val := by
  refine ⟨Nat.lt_of_lt_of_le h.1 he.1, fun r' hr' => ?_⟩
  obtain ⟨r, hr, hsup⟩ := he.2 id r' h.1 hr'
  obtain ⟨hle, hval⟩ := h.2 r hr
  refine ⟨Nat.le_trans hle hsup.1, fun heq => ?_⟩
  have hver : version r = version r' := Nat.le_antisymm hsup.1 (by rw [← heq]; exact hle)
  rw [← hsup.2 hver]
  exact hval (heq.trans hver.symm)

end Versioned

end Table

end Lib
