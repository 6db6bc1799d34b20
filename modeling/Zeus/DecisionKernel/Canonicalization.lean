import Mathlib.Data.String.Basic
import Zeus.DecisionKernel.Certificate

/-! `normalize` and `canonical_json`. Writing and parsing JSON, and the texts of decimals and
datetimes, are parameters. -/

namespace Zeus.DecisionKernel

structure FiniteFloat where
  bits : UInt64
  finite : (bits >>> 52) &&& 0x7ff ≠ 0x7ff

structure FiniteDecimal where
  negative : Bool
  coefficient : ℕ
  exponent : ℤ

/-- A payload value; a dict lists its items in insertion order. -/
inductive Value where
  | null
  | bool (value : Bool)
  | int (value : ℤ)
  | float (value : FiniteFloat)
  | str (text : String)
  | decimal (value : FiniteDecimal)
  | datetime (time : Instant)
  | list (items : List Value)
  | tuple (items : List Value)
  | dict (entries : List (String × Value))

def keyLe (entry other : String × Value) : Prop := entry.1 ≤ other.1

instance : DecidableRel keyLe := fun entry other => inferInstanceAs (Decidable (entry.1 ≤ other.1))

instance : Std.Total keyLe := ⟨fun entry other => le_total entry.1 other.1⟩

instance : IsTrans (String × Value) keyLe := ⟨fun _ _ _ => String.le_trans⟩

structure ValueTexts where
  /-- The UTC text of an instant, with `Z` for its offset. -/
  isoformat : Instant → String
  /-- The normalized decimal in plain notation. -/
  plainDecimal : FiniteDecimal → String

section
variable (texts : ValueTexts)

mutual

/-- `normalize`; the items of a dict are sorted by key. -/
def normalize : Value → Value
  | .datetime time => .str (texts.isoformat time)
  | .decimal value => .str (texts.plainDecimal value)
  | .dict entries => .dict ((normalizeEntries entries).insertionSort keyLe)
  | .list items => .list (normalizeItems items)
  | .tuple items => .list (normalizeItems items)
  | .null => .null
  | .bool value => .bool value
  | .int value => .int value
  | .float value => .float value
  | .str text => .str text

def normalizeItems : List Value → List Value
  | [] => []
  | item :: rest => normalize item :: normalizeItems rest

def normalizeEntries : List (String × Value) → List (String × Value)
  | [] => []
  | (key, value) :: rest => (key, normalize value) :: normalizeEntries rest
end

end

mutual

def sortKeys : Value → Value
  | .dict entries => .dict ((sortKeysEntries entries).insertionSort keyLe)
  | .list items => .list (sortKeysItems items)
  | .tuple items => .tuple (sortKeysItems items)
  | .datetime time => .datetime time
  | .decimal value => .decimal value
  | .null => .null
  | .bool value => .bool value
  | .int value => .int value
  | .float value => .float value
  | .str text => .str text

def sortKeysItems : List Value → List Value
  | [] => []
  | item :: rest => sortKeys item :: sortKeysItems rest

def sortKeysEntries : List (String × Value) → List (String × Value)
  | [] => []
  | (key, value) :: rest => (key, sortKeys value) :: sortKeysEntries rest
end

structure JsonModule where
  dumps : Value → String
  loads : String → Option Value

def JsonModule.canonicalJson (json : JsonModule) (texts : ValueTexts) (value : Value) : String :=
  json.dumps (sortKeys (normalize texts value))

/-- Values that hold no decimal, datetime or tuple, with the keys of each dict in order. -/
inductive Normal : Value → Prop
  | null : Normal .null
  | bool (value : Bool) : Normal (.bool value)
  | int (value : ℤ) : Normal (.int value)
  | float (value : FiniteFloat) : Normal (.float value)
  | str (text : String) : Normal (.str text)
  | list {items : List Value} : (∀ item ∈ items, Normal item) → Normal (.list items)
  | dict {entries : List (String × Value)} : entries.Pairwise keyLe →
  (∀ entry ∈ entries, Normal entry.2) →
      Normal (.dict entries)

section
variable {texts : ValueTexts} {items : List Value} {entries : List (String × Value)}

mutual

theorem normal_normalize (texts : ValueTexts) : (v : Value) → Normal (normalize texts v)
  | .datetime _ => .str _
  | .decimal _ => .str _
  | .dict entries => by
      refine .dict (List.pairwise_insertionSort keyLe _) fun entry mem => ?_
      exact normal_normalizeEntries texts entries entry ((List.mem_insertionSort _).mp mem)
  | .list items => .list (normal_normalizeItems texts items)
  | .tuple items => .list (normal_normalizeItems texts items)
  | .null => .null
  | .bool v => .bool v
  | .int v => .int v
  | .float v => .float v
  | .str text => .str text

theorem normal_normalizeItems (texts : ValueTexts) :
    (items : List Value) → ∀ item ∈ normalizeItems texts items, Normal item
  | [] => by simp [normalizeItems]
  | first :: rest => by
      rw [normalizeItems]
      exact List.forall_mem_cons.mpr
        ⟨normal_normalize texts first, normal_normalizeItems texts rest⟩

theorem normal_normalizeEntries (texts : ValueTexts) :
    (entries : List (String × Value)) → ∀ entry ∈ normalizeEntries texts entries, Normal entry.2
  | [] => by simp [normalizeEntries]
  | (key, value) :: rest => by
      rw [normalizeEntries]
      exact List.forall_mem_cons.mpr
        ⟨normal_normalize texts value, normal_normalizeEntries texts rest⟩
end

theorem normalizeItems_of_fixed (fixed : ∀ item ∈ items, normalize texts item = item) :
    normalizeItems texts items = items := by
  induction items with
  | nil => rfl
  | cons first rest ih =>
    obtain ⟨head, tail⟩ := List.forall_mem_cons.mp fixed
    rw [normalizeItems, head, ih tail]

theorem normalizeEntries_of_fixed (fixed : ∀ entry ∈ entries, normalize texts entry.2 = entry.2) :
    normalizeEntries texts entries = entries := by
  induction entries with
  | nil => rfl
  | cons first rest ih =>
    obtain ⟨head, tail⟩ := List.forall_mem_cons.mp fixed
    obtain ⟨key, v⟩ := first
    rw [normalizeEntries, head, ih tail]

theorem Normal.normalize_eq {value : Value} (normal : Normal value) (texts : ValueTexts) :
    normalize texts value = value := by
  induction normal with
  | list _ ih => rw [normalize, normalizeItems_of_fixed ih]
  | dict sorted _ ih => rw [normalize, normalizeEntries_of_fixed ih, sorted.insertionSort_eq]
  | _ => rfl

theorem sortKeysItems_of_fixed (fixed : ∀ item ∈ items, sortKeys item = item) :
    sortKeysItems items = items := by
  induction items with
  | nil => rfl
  | cons first rest ih =>
    obtain ⟨head, tail⟩ := List.forall_mem_cons.mp fixed
    rw [sortKeysItems, head, ih tail]

theorem sortKeysEntries_of_fixed (fixed : ∀ entry ∈ entries, sortKeys entry.2 = entry.2) :
    sortKeysEntries entries = entries := by
  induction entries with
  | nil => rfl
  | cons first rest ih =>
    obtain ⟨head, tail⟩ := List.forall_mem_cons.mp fixed
    obtain ⟨key, v⟩ := first
    rw [sortKeysEntries, head, ih tail]

theorem Normal.sortKeys_eq {value : Value} (normal : Normal value) : sortKeys value = value := by
  induction normal with
  | list _ ih => rw [sortKeys, sortKeysItems_of_fixed ih]
  | dict sorted _ ih => rw [sortKeys, sortKeysEntries_of_fixed ih, sorted.insertionSort_eq]
  | _ => rfl

theorem canonicalJson_loads {json : JsonModule} {texts : ValueTexts} {v : Value}
    (roundTrip : json.loads (json.dumps (normalize texts v)) = some (normalize texts v)) :
    (json.loads (json.canonicalJson texts v)).map (json.canonicalJson texts) =
      some (json.canonicalJson texts v) := by
  have normal := normal_normalize texts v
  simp only [JsonModule.canonicalJson, normal.sortKeys_eq, roundTrip, Option.map_some,
    normal.normalize_eq]
end

/-- The same payload with the items of its dicts, at any depth, in another insertion order. -/
inductive Reordered : Value → Value → Prop
  | trans {first second third : Value} : Reordered first second → Reordered second third →
  Reordered first third
  | items {entries others : List (String × Value)} : (entries.map Prod.fst).Nodup →
  entries.Perm others →
      Reordered (.dict entries) (.dict others)
  | inList {value other : Value} (front back : List Value) : Reordered value other →
      Reordered (.list (front ++ value :: back)) (.list (front ++ other :: back))
  | inTuple {value other : Value} (front back : List Value) : Reordered value other →
      Reordered (.tuple (front ++ value :: back)) (.tuple (front ++ other :: back))
  | inDict {value other : Value} (front back : List (String × Value))
    (key : String) : Reordered value other →
      Reordered (.dict (front ++ (key, value) :: back)) (.dict (front ++ (key, other) :: back))

theorem normalizeItems_eq (texts : ValueTexts) (items : List Value) :
    normalizeItems texts items = items.map (normalize texts) := by
  induction items with
  | nil => rfl
  | cons item rest ih => rw [normalizeItems, ih, List.map_cons]

theorem normalizeEntries_eq (texts : ValueTexts) (entries : List (String × Value)) :
    normalizeEntries texts entries = entries.map (Prod.map id (normalize texts)) := by
  induction entries with
  | nil => rfl
  | cons entry rest ih => rw [normalizeEntries, ih, List.map_cons]; rfl

/-- Canonical JSON, and so every hash of it, does not see in which order the items of a dict were
inserted. -/
theorem canonicalJson_of_reordered (json : JsonModule) (texts : ValueTexts) {v other : Value}
    (reordered : Reordered v other) :
    json.canonicalJson texts v = json.canonicalJson texts other := by
  suffices same : normalize texts v =
    normalize texts other by rw [JsonModule.canonicalJson, same]; rfl
  induction reordered with
  | trans _ _ first snd => exact first.trans snd
  | inList front back _ ih =>
    simp only [normalize, normalizeItems_eq, List.map_append, List.map_cons, ih]
  | inTuple front back _ ih =>
    simp only [normalize, normalizeItems_eq, List.map_append, List.map_cons, ih]
  | inDict front back key _ ih =>
    simp only [normalize, normalizeEntries_eq, List.map_append, List.map_cons, Prod.map, ih]
  | @items entries others nd perm =>
    have keys : ((normalizeEntries texts entries).map Prod.fst).Nodup := by
      rwa [normalizeEntries_eq, List.map_map]
    have moved : (normalizeEntries texts entries).Perm (normalizeEntries texts others) := by
      rw [normalizeEntries_eq, normalizeEntries_eq]
      exact perm.map _
    have sorted :=
      ((List.perm_insertionSort keyLe _).trans moved).trans (List.perm_insertionSort keyLe _).symm
    rw [normalize, normalize]
    refine congrArg Value.dict (sorted.eq_of_pairwise ?_ (List.pairwise_insertionSort _ _)
      (List.pairwise_insertionSort _ _))
    intro entry other here there below above
    apply List.inj_on_of_nodup_map keys ((List.mem_insertionSort _).mp here)
    · exact moved.mem_iff.mpr ((List.mem_insertionSort _).mp there)
    · exact le_antisymm below above

def writeKeys : Value → String
  | .dict entries => ",".intercalate (entries.map Prod.fst)
  | _ => ""

theorem swapped_items_same_json :
    JsonModule.canonicalJson ⟨writeKeys, fun _ => none⟩ ⟨fun _ => "", fun _ => ""⟩
        (.dict [("side", .null), ("price", .int 1)]) =
      JsonModule.canonicalJson ⟨writeKeys, fun _ => none⟩ ⟨fun _ => "", fun _ => ""⟩
        (.dict [("price", .int 1), ("side", .null)]) :=
  canonicalJson_of_reordered _ _ (.items (by decide) (.swap _ _ _))

end Zeus.DecisionKernel
