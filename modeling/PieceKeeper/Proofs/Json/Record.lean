import PieceKeeper.Json.Record
import Mathlib.Data.List.Nodup

/-!
# Reading back a written record

A record is written as an object with its columns in order.  Reading such an object finds
each column with the value it was written with, and a value that may be absent is found
absent or present as it was.  What is left of a round trip is one fact for each column: that
its own reader undoes its own writer.
-/

namespace PieceKeeper.Json

/-! ## Columns -/

/-- The members of an object that is written with some of its columns and without the others. -/
def members (names : List String) (cells : List (Option Json)) : List (String × Json) :=
  (names.zip cells).filterMap fun column ↦ column.2.map (column.1, ·)

theorem members_map_some {names : List String} {values : List Json}
    (hlength : names.length = values.length) :
    members names (values.map some) = names.zip values := by
  induction names generalizing values with
  | nil => rfl
  | cons name names ih =>
    cases values with
    | nil => cases hlength
    | cons value values => exact congrArg ((name, value) :: ·) (ih (Nat.succ.inj hlength))

/-- The keys are among the names, in their order. -/
theorem keys_members_sublist (names : List String) (cells : List (Option Json)) :
    ((members names cells).map (·.1)).Sublist names := by
  induction names generalizing cells with
  | nil => exact List.Sublist.refl []
  | cons name names ih =>
    cases cells with
    | nil => exact List.nil_sublist _
    | cons cell cells =>
      cases cell with
      | none => exact (ih cells).cons name
      | some value => exact (ih cells).cons_cons name

theorem map_lookup_members {names : List String} {cells : List (Option Json)} (hnodup : names.Nodup)
    (hlength : names.length = cells.length) :
    (names.map fun name ↦ (members names cells).lookup name) = cells := by
  induction names generalizing cells with
  | nil => exact (List.eq_nil_of_length_eq_zero hlength.symm).symm
  | cons name names ih =>
    cases cells with
    | nil => cases hlength
    | cons cell cells =>
      obtain ⟨hname, hnames⟩ := List.nodup_cons.1 hnodup
      rw [List.map_cons]
      refine congrArg₂ List.cons ?head ((List.map_congr_left fun other hother ↦ ?tail).trans
        (ih hnames (Nat.succ.inj hlength)))
      case head =>
        cases cell with
        | none =>
          refine List.lookup_eq_none_iff.2 fun member hmember ↦ bne_iff_ne.2 ?_
          rintro rfl
          exact hname ((keys_members_sublist names cells).subset (List.mem_map_of_mem hmember))
        | some value => exact List.lookup_cons_self
      case tail =>
        have hne : other ≠ name := fun heq ↦ hname (heq ▸ hother)
        cases cell with
        | none => rfl
        | some value =>
          change List.lookup other ((name, value) :: members names cells) = _
          rw [List.lookup_cons, beq_false_of_ne hne]

theorem length_filter_key_le_one {members : List (String × Json)}
    (hnodup : (members.map (·.1)).Nodup) (name : String) :
    (members.filter (·.1 == name)).length ≤ 1 := by
  rw [← List.countP_eq_length_filter]
  calc members.countP (·.1 == name)
      = (members.map (·.1)).count name := by rw [List.count, List.countP_map]; rfl
    _ ≤ 1 := List.nodup_iff_count_le_one.1 hnodup name

/-- The columns of an object are found as they were written, and those it leaves out are missing. -/
theorem columns_object_members {names : List String} {cells : List (Option Json)}
    (hnodup : names.Nodup) (hlength : names.length = cells.length) (needed : Nat) :
    columns names needed (.object (members names cells)) = some cells := by
  have hkeys := hnodup.sublist (keys_members_sublist names cells)
  rw [columns, map_lookup_members hnodup hlength, if_pos]
  exact List.all_eq_true.2 fun name _ ↦ decide_eq_true (length_filter_key_le_one hkeys name)

/-- The columns of an object that was written with all of them are found again. -/
theorem columns_object_zip {names : List String} {values : List Json} (hnodup : names.Nodup)
    (hlength : names.length = values.length) (needed : Nat) :
    columns names needed (.object (names.zip values)) = some (values.map some) := by
  rw [← members_map_some hlength]
  exact columns_object_members hnodup (by rwa [List.length_map]) needed

/-- A member is found exactly if its column was written. -/
theorem get?_members {names : List String} {cells : List (Option Json)} (hnodup : names.Nodup)
    (hlength : names.length = cells.length) {i : Nat} {name : String} {cell : Option Json}
    (hname : names[i]? = some name) (hcell : cells[i]? = some cell) :
    (object (members names cells)).get? name = cell := by
  rw [← map_lookup_members hnodup hlength, List.getElem?_map, hname] at hcell
  exact Option.some.inj hcell

theorem eq_of_columns_object {names : List String} {needed : Nat}
    {members : List (String × Json)} {found : List (Option Json)}
    (h : columns names needed (.object members) = some found) :
    found = names.map fun name ↦ members.lookup name := by
  rw [columns, Option.ite_none_right_eq_some] at h
  exact (Option.some.inj h.2).symm

section Insert

variable {key : String} {before after : List (String × Json)}

theorem lookup_insert_self (value : Json) (hbefore : ∀ member ∈ before, member.1 ≠ key) :
    (before ++ (key, value) :: after).lookup key = some value := by
  have hnone : before.lookup key = none :=
    List.lookup_eq_none_iff.2 fun member hmember ↦ bne_iff_ne.2 (hbefore member hmember).symm
  rw [List.lookup_append, hnone, List.lookup_cons_self]
  rfl

theorem lookup_insert_of_ne {name : String} (hne : name ≠ key) (value : Json) :
    (before ++ (key, value) :: after).lookup name = (before ++ after).lookup name := by
  rw [List.lookup_append, List.lookup_append, List.lookup_cons, beq_false_of_ne hne]

theorem length_filter_insert_le_one {name : String} (value : Json)
    (hfresh : ∀ member ∈ before ++ after, member.1 ≠ key)
    (hone : ((before ++ after).filter (·.1 == name)).length ≤ 1) :
    ((before ++ (key, value) :: after).filter (·.1 == name)).length ≤ 1 := by
  have hmiddle : (before ++ (key, value) :: after).Perm ((key, value) :: (before ++ after)) :=
    List.perm_middle
  rw [(hmiddle.filter (·.1 == name)).length_eq, List.filter_cons]
  by_cases heq : key = name
  · have hempty : (before ++ after).filter (·.1 == name) = [] :=
      List.filter_eq_nil_iff.2 fun member hmember ↦ by
        rw [beq_iff_eq]
        exact heq ▸ hfresh member hmember
    rw [if_pos (beq_iff_eq.2 heq), hempty]
    exact Nat.le_refl 1
  · rwa [if_neg fun h ↦ heq (beq_iff_eq.1 h)]

/-- One more member, wherever it stands, changes no column but its own. -/
theorem columns_object_insert {names : List String} {needed : Nat} (value : Json)
    (hfresh : ∀ member ∈ before ++ after, member.1 ≠ key)
    (hcolumns : (columns names needed (.object (before ++ after))).isSome) :
    columns names needed (.object (before ++ (key, value) :: after)) =
      some (names.map fun name ↦
        if name = key then some value else (before ++ after).lookup name) := by
  simp only [columns, Option.isSome_ite, List.all_eq_true, decide_eq_true_eq] at hcolumns ⊢
  rw [if_pos fun name hname ↦ length_filter_insert_le_one value hfresh (hcolumns name hname)]
  congr 2
  funext name
  split_ifs with heq
  · rw [heq]
    exact lookup_insert_self value fun member hmember ↦
      hfresh member (List.mem_append_left _ hmember)
  · exact lookup_insert_of_ne heq value

end Insert

/-! ## Values -/

theorem optional_some {α : Type} {read : Json → Option α} {json : Json} (h : json ≠ .null) :
    optional read (some json) = (read json).map some := by
  rw [optional]
  exact h

/-- A value that may be absent is read back when its encoding, which is never null, is. -/
theorem optional_ofOption {α : Type} {read : Json → Option α} {encode : α → Json}
    (hread : ∀ value, read (encode value) = some value) (hnull : ∀ value, encode value ≠ .null)
    (value : Option α) : optional read (some (ofOption encode value)) = some value := by
  cases value with
  | none => rfl
  | some value =>
    rw [ofOption, optional_some (hnull value), hread, Option.map_some]

theorem int64?_integer (n : Int64) : int64? (.integer n.toInt) = some n := by
  have hbounds := And.intro (Int64.minValue_le_toInt n) (Int64.toInt_le n)
  simp only [int64?, integer?, Option.bind_eq_bind, Option.bind_some, if_pos hbounds,
    Int64.ofInt_toInt]

theorem natBelow?_ofNat {bound n : Nat} (h : n < bound) : (ofNat n).natBelow? bound = some n := by
  have hbounds : 0 ≤ (n : Int) ∧ (n : Int) < bound := ⟨Int.natCast_nonneg n, Int.ofNat_lt.2 h⟩
  simp only [natBelow?, ofNat, integer?, Option.bind_eq_bind, Option.bind_some, if_pos hbounds,
    Int.toNat_natCast]

theorem uint64?_ofUInt64 (n : UInt64) : uint64? (ofUInt64 n) = some n := by
  rw [uint64?]
  change ((ofNat n.toNat).natBelow? UInt64.size).map UInt64.ofNat = some n
  rw [natBelow?_ofNat n.toNat_lt, Option.map_some, UInt64.ofNat_toNat]

theorem byte?_ofNat (byte : UInt8) : byte? (.ofNat byte.toNat) = some byte := by
  rw [byte?, natBelow?_ofNat byte.toNat_lt, Option.map_some, UInt8.ofNat_toNat]

/-- The bytes of an array of numbers are read back. -/
theorem bytes?_map_ofNat (bytes : Bytes) :
    bytes? (.array (bytes.map fun byte ↦ ofNat byte.toNat)) = some bytes := by
  change (bytes.map fun byte ↦ ofNat byte.toNat).mapM byte? = some bytes
  induction bytes with
  | nil => rfl
  | cons byte bytes ih => simp [List.mapM_cons, byte?_ofNat, ih]

end PieceKeeper.Json
