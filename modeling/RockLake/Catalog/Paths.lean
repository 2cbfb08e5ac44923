import RockLake.Catalog.BulkLoad
import RockLake.Catalog.Cleanup

/-! Where the readers of data files look for a file. The resolution of paths knows of the data prefix and
of leading slashes; none of the readers asks it. -/
namespace RockLake

open CatalogPath String

/-- The scan of DataFusion puts the data root before every path; the URL has `file://` before it. -/
def scanLocation (dataRoot path : String) : String :=
  ofList (Text.dropEndWhile (· = '/') dataRoot.toList) ++ "/" ++ path

/-- The object that `table_changes` asks the object store for. -/
def changesLocation (file : DataFileRow) : String := file.path

/-- The entry of a file in the set of referenced paths of the sweep. -/
def sweepLocation (file : DataFileRow) : String := file.path

def leadingSlashes (path : String) : String := ofList (path.toList.takeWhile (· = '/'))

theorem resolve_relative (root path other : String) :
    other ++ ofList (path.toList.dropWhile (· = '/')) =
        (CatalogPath.new root root .relativeToDataPrefix).resolveDataPath path ↔
      normalizeTrailingSlash root = other := by
  rw [resolveDataPath, new, eq_comm, ← toList_inj, ← @String.toList_inj _ other]
  simp

/-- The readers find the file where its path resolves to, each under its own condition: the scan for
relative paths only, and the others for absolute ones, apart from roots made of slashes. -/
theorem location_resolved_iff (dataRoot : String) (mode : DataPathMode) (file : DataFileRow) :
    let resolved := (new dataRoot dataRoot mode).resolveDataPath file.path
    (scanLocation dataRoot file.path = resolved ↔ mode = .relativeToDataPrefix ∧
      normalizeTrailingSlash dataRoot = scanLocation dataRoot (leadingSlashes file.path)) ∧
    (changesLocation file = resolved ↔
      mode = .absolute ∨ normalizeTrailingSlash dataRoot = leadingSlashes file.path) ∧
    (sweepLocation file = resolved ↔
      mode = .absolute ∨ normalizeTrailingSlash dataRoot = leadingSlashes file.path) := by
  have split : file.path = leadingSlashes file.path ++ ofList (file.path.toList.dropWhile (· = '/')) := by
    rw [← toList_inj]
    simp [leadingSlashes]
  have stored : file.path = (new dataRoot dataRoot mode).resolveDataPath file.path ↔
      mode = .absolute ∨ normalizeTrailingSlash dataRoot = leadingSlashes file.path := by
    cases mode with
    | absolute => simp [resolveDataPath, new]
    | relativeToDataPrefix =>
      rw [← resolve_relative, ← split]
      simp
  refine ⟨?_, stored, stored⟩
  cases mode with
  | absolute =>
    simp only [reduceCtorEq, false_and, iff_false]
    intro same
    have lengths := congrArg length same
    simp [scanLocation, resolveDataPath, new] at lengths
  | relativeToDataPrefix =>
    have whole : scanLocation dataRoot (leadingSlashes file.path) ++
        ofList (file.path.toList.dropWhile (· = '/')) = scanLocation dataRoot file.path := by
      rw [scanLocation, append_assoc, ← split, scanLocation]
    rw [and_iff_right rfl, ← resolve_relative dataRoot file.path, whole]

/-- A relative file is looked for outside of the data root by `table_changes` and is not among the
referenced paths of the sweep, and a file with a URI is looked for inside of the root by the scan. -/
theorem locations_differ : ∃ file file' : DataFileRow,
    (CatalogPath.new "/data" "/data" .relativeToDataPrefix).resolveDataPath file.path =
      "/data/t/f.parquet" ∧
    changesLocation file = "t/f.parquet" ∧ sweepLocation file = "t/f.parquet" ∧
    (CatalogPath.new "/data" "/data" .absolute).resolveDataPath file'.path = "s3://b/t/f.parquet" ∧
    scanLocation "/data" file'.path = "/data/s3://b/t/f.parquet" :=
  ⟨rebuiltFile 1 "t/f.parquet", rebuiltFile 1 "s3://b/t/f.parquet", by decide +kernel, rfl, rfl, rfl,
    by decide +kernel⟩

def CatalogPath.toStoredPath (paths : CatalogPath) (absolutePath : String) : String :=
  match paths.dataPathMode with
  | .absolute => absolutePath
  | .relativeToDataPrefix => ofList
      ((Text.stripPrefix paths.dataPrefix.toList absolutePath.toList).getD absolutePath.toList)

/-- A path comes back if it is stored whole, or lies under the data prefix with no further slash
there. Stored forms are apart only if nothing is stripped. -/
theorem storedPath_resolves_iff (paths : CatalogPath) :
    (∀ path, paths.resolveDataPath (paths.toStoredPath path) = path ↔
      paths.dataPathMode = .absolute ∨
        ∃ rest, path = paths.dataPrefix ++ rest ∧ rest.toList.head? ≠ some '/') ∧
    (Function.Injective paths.toStoredPath ↔
      paths.dataPathMode = .absolute ∨ paths.dataPrefix = "") := by
  cases mode : paths.dataPathMode with
  | absolute => simp [resolveDataPath, toStoredPath, mode, Function.Injective]
  | relativeToDataPrefix =>
    simp only [reduceCtorEq, false_or]
    have stored : ∀ rest, paths.toStoredPath (paths.dataPrefix ++ rest) = rest := by
      simp [toStoredPath, mode, Text.stripPrefix]
    have resolves : ∀ rest, paths.resolveDataPath rest = paths.dataPrefix ++ rest ↔
        rest.toList.head? ≠ some '/' := by
      intro rest
      rw [resolveDataPath, mode, ← toList_inj, toList_append, toList_append,
        toList_ofList, List.append_right_inj, List.dropWhile_eq_self_iff]
      cases rest.toList <;> simp
    refine ⟨fun path => ⟨fun resolved => ?_, ?_⟩, fun injective => ?_, fun empty => ?_⟩
    · obtain ⟨rest, rfl⟩ : ∃ rest, path = paths.dataPrefix ++ rest := by
        rw [resolveDataPath, mode] at resolved
        exact ⟨_, resolved.symm⟩
      rw [stored] at resolved
      exact ⟨rest, rfl, (resolves rest).mp resolved⟩
    · rintro ⟨rest, rfl, bare⟩
      rw [stored]
      exact (resolves rest).mpr bare
    · have nothing : paths.toStoredPath "" = "" := by
        simp only [toStoredPath, mode, Text.stripPrefix]
        split <;> simp
      exact injective ((append_empty ▸ stored "").trans nothing.symm)
    · intro a b same
      simpa [toStoredPath, mode, empty, Text.stripPrefix] using same

/-- A second slash is lost, a path outside of the prefix comes back under it, and two URIs share
their stored form. -/
theorem storedPath_loses : ∃ paths, paths = CatalogPath.new "s3://b" "s3://b/data" .relativeToDataPrefix ∧
    paths.resolveDataPath (paths.toStoredPath "s3://b/data//f") = "s3://b/data/f" ∧
    paths.resolveDataPath (paths.toStoredPath "s3://c/f") = "s3://b/data/s3://c/f" ∧
    paths.toStoredPath "s3://b/data/s3://c/f" = paths.toStoredPath "s3://c/f" :=
  ⟨_, rfl, by decide +kernel, by decide +kernel, by decide +kernel⟩

end RockLake
