import RockLake.Lib.BigEndian
import RockLake.Core.Keys

/-! The bytes of keys. A key is its tag, then its words, eight bytes each. The store orders and scans
bytes, and the model of the store orders and scans words. -/
namespace RockLake

open List BigEndian

/-- Families with keys of 64-bit words: those that the catalog stores rows of, and the others. -/
inductive WordFamily where
  | stored (family : Family)
  | columnMapping | nameMapping | partitionColumn | filePartitionValue | sortExpression
  | encryptedSecret | encryptionKey
  deriving DecidableEq

def storedTags : List (Family × List UInt8) :=
  [(.snapshot, [0x02]), (.snapshotChanges, [0x03]), (.schema, [0x04]), (.table, [0x05]),
    (.column, [0x06]), (.view, [0x07]), (.macros, [0x08]), (.macroImpl, [0x09]),
    (.macroParameters, [0x0A]), (.dataFile, [0x0B]), (.deleteFile, [0x0C]),
    (.filesScheduledForDeletion, [0x0D]), (.inlinedDataTables, [0x0E]), (.tableStats, [0x11]),
    (.tableColumnStats, [0x12]), (.fileColumnStats, [0x13]), (.fileVariantStats, [0x14]),
    (.partitionInfo, [0x15]), (.sortInfo, [0x18]), (.tag, [0x1A]), (.columnTag, [0x1B]),
    (.schemaVersions, [0x1C]), (.dataFileBySnapshot, [0x21]), (.tableById, [0xFC]),
    (.inlinedInsert, [0xFD, 0x01]), (.inlinedDelete, [0xFD, 0x02])]

/-- The bytes before the words, for all families of such keys but the older secondary index. -/
def fixedTags : List (WordFamily × List UInt8) :=
  storedTags.map (Prod.map .stored id) ++
    [(.columnMapping, [0x0F]), (.nameMapping, [0x10]), (.partitionColumn, [0x16]),
      (.filePartitionValue, [0x17]), (.sortExpression, [0x19]), (.encryptedSecret, [0x24]),
      (.encryptionKey, [0x25])]

def keyBytes (tag : List UInt8) (key : Key) : List UInt8 := tag ++ key.flatMap (digits 8)

theorem fixedTags_apart (left : x ∈ fixedTags) (right : y ∈ fixedTags)
    (close : x.1 = y.1 ∨ x.2 <+: y.2 ∨ y.2 <+: x.2) : x = y := by
  have apart : (fixedTags.all fun x => fixedTags.all fun y =>
      decide (x.1 = y.1 ∨ x.2 <+: y.2 ∨ y.2 <+: x.2 → x = y)) = true := by decide +kernel
  exact of_decide_eq_true (all_eq_true.mp (all_eq_true.mp apart x left) y right) close

/-- The store may be scanned by words. A key starts with the bytes of a scan exactly if it is of the
family of the scan and its words start with those of the scan, and the bytes of two keys of a family
are in the order of their words. -/
theorem keyBytes_scan (left : (f, tag) ∈ fixedTags) (right : (g, tag') ∈ fixedTags)
    (fits : ∀ word ∈ start ++ key, word < 2 ^ 64) :
    (keyBytes tag start <+: keyBytes tag' key ↔ f = g ∧ start <+: key) ∧
      (keyBytes tag start < keyBytes tag key ↔ start < key) := by
  obtain ⟨less, starts⟩ := @words_iff 8 start key (by decide) fits
  refine ⟨⟨fun scanned => ?_, ?_⟩, ?_⟩
  · have tags := prefix_or_prefix_of_prefix ((prefix_append tag _).trans scanned)
      (prefix_append tag' _)
    cases fixedTags_apart left right (.inr tags)
    exact ⟨rfl, starts.mp ((prefix_append_right_inj tag).mp scanned)⟩
  · rintro ⟨rfl, within⟩
    cases fixedTags_apart left right (.inl rfl)
    exact (prefix_append_right_inj tag).mpr (starts.mpr within)
  · clear left right
    induction tag with
    | nil => exact less
    | cons byte tag ih => simpa [keyBytes, cons_lt_cons_iff] using ih

/-- The scan of one table's columns stops before those of the next table. -/
theorem keyBytes_scan_column : ∃ next : List UInt8, keyBytes [0x06] [255] < next ∧
    ¬ keyBytes [0x06] [255] <+: next ∧ next = keyBytes [0x06] (keyColumn 256 0 1) := by
  obtain ⟨scanned, ordered⟩ := @keyBytes_scan (.stored .column) [0x06] (.stored .column) [0x06] [255]
    (keyColumn 256 0 1) (by decide) (by decide) (by decide)
  exact ⟨_, ordered.mpr (by decide), mt scanned.mp (by decide), rfl⟩

/-- The older secondary index shares the tag of the table index, but its keys are longer. -/
theorem tableById_ne_secondaryIndex (tableId snapshotId table dataFileId : Nat) :
    keyBytes [0xFC] (keyTableById tableId) ≠ keyBytes [0xFC] [snapshotId, table, dataFileId] := by
  intro same
  have lengths := congrArg length same
  simp [keyBytes, keyTableById] at lengths

end RockLake
