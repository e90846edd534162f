import CodeGraph.Proofs.Ranking
import CodeGraph.Proofs.Table.Revisions

set_option autoImplicit false

namespace CodeGraph

def Point.hit (query : Embedding) (point : Point) : Hit Float32 :=
  ⟨point.id, Embedding.cosine query point.vector, point.payload⟩

def Collection.point? (found : Collection) (id : String) : Option Point :=
  Table.get? Point.id found.points id

namespace VectorStore

inductive Request where
  | ensure (name : String) (dimensions : Nat)
  | upsert (name : String) (points : List Point)
  | deleteMatching (name key value : String)

def apply (store : VectorStore) : Request → VectorStore
  | .ensure name dimensions => store.ensure name dimensions
  | .upsert name points => (store.upsert name points).toOption.getD store
  | .deleteMatching name key value => (store.deleteMatching name key value).toOption.getD store

def run (requests : List Request) : VectorStore :=
  requests.foldl apply {}

theorem run_append (requests more : List Request) :
    run (requests ++ more) = more.foldl apply (run requests) :=
  List.foldl_append

variable {store : VectorStore} {name : String} {found : Collection}

theorem collection_eq_ok_iff :
    store.collection name = .ok found ↔
      Table.get? Collection.name store.collections name = some found := by
  unfold collection
  cases Table.get? Collection.name store.collections name <;> simp

theorem collection_put (present : store.collection name = .ok found) (points : List Point) :
    collection ⟨Table.put Collection.name { found with points } store.collections⟩ name =
      .ok { found with points } := by
  have named : found.name = name := (Table.get?_some (collection_eq_ok_iff.mp present)).2
  rw [collection_eq_ok_iff, ← named]
  exact Table.get?_put_self Collection.name { found with points } store.collections

/-- The points of the batches that a collection takes. A batch with a vector of another length is
refused as a whole. -/
def taken (dimensions : Nat) (batches : List (List Point)) : List Point :=
  (batches.filter
    (fun batch => batch.all (fun point => decide (point.vector.length = dimensions)))).flatten

theorem upsert_eq (present : store.collection name = .ok found) (points : List Point) :
    (points.all (fun point => decide (point.vector.length = found.dimensions)) = true ∧
      store.upsert name points = .ok ⟨Table.put Collection.name
        { found with points := Table.putAll Point.id found.points points } store.collections⟩) ∨
    (points.all (fun point => decide (point.vector.length = found.dimensions)) = false ∧
      ∃ error, store.upsert name points = .error error) := by
  simp only [upsert, present, bind, Except.bind]
  cases odd : points.find? (fun point => decide (point.vector.length ≠ found.dimensions)) with
  | none => exact .inl ⟨by simpa using odd, rfl⟩
  | some point =>
      refine .inr ⟨?_, _, rfl⟩
      have differs := List.find?_some odd
      rw [List.all_eq_false]
      exact ⟨point, List.mem_of_find?_eq_some odd, by simpa using differs⟩

theorem deleteMatching_eq (present : store.collection name = .ok found) (key value : String) :
    store.deleteMatching name key value = .ok ⟨Table.put Collection.name
      { found with points :=
        found.points.filter (fun point => !matchesText point.payload key value) }
      store.collections⟩ := by
  simp only [deleteMatching, present]
  rfl

def Keyed (store : VectorStore) : Prop :=
  ∀ found ∈ store.collections, Table.Unique Point.id found.points

theorem Keyed.unique (keyed : store.Keyed) (present : store.collection name = .ok found) :
    Table.Unique Point.id found.points :=
  keyed found (Table.get?_some (collection_eq_ok_iff.mp present)).1

theorem Keyed.put (keyed : store.Keyed) {collection : Collection}
    (unique : Table.Unique Point.id collection.points) :
    Keyed ⟨Table.put Collection.name collection store.collections⟩ := by
  intro other inside
  rcases Table.mem_put inside with rfl | old
  · exact unique
  · exact keyed other old

theorem Keyed.apply (keyed : store.Keyed) (request : Request) : (store.apply request).Keyed := by
  cases request with
  | ensure name dimensions =>
      simp only [VectorStore.apply, ensure]
      split
      · exact keyed
      · exact keyed.put List.nodup_nil
  | upsert name points =>
      simp only [VectorStore.apply]
      cases present : store.collection name with
      | error error =>
          simp only [upsert, present]
          exact keyed
      | ok found =>
          obtain ⟨-, written⟩ | ⟨-, error, refused⟩ := upsert_eq present points
          · rw [written]
            exact keyed.put ((keyed.unique present).putAll points)
          · rw [refused]
            exact keyed
  | deleteMatching name key value =>
      simp only [VectorStore.apply]
      cases present : store.collection name with
      | error error =>
          simp only [deleteMatching, present]
          exact keyed
      | ok found =>
          rw [deleteMatching_eq present]
          exact keyed.put ((keyed.unique present).filter _)

theorem keyed_run (requests : List Request) : (run requests).Keyed := by
  unfold run
  have start : Keyed {} := by
    intro found inside
    cases inside
  generalize ({} : VectorStore) = store at start ⊢
  induction requests generalizing store with
  | nil => exact start
  | cons request rest ih => exact ih _ (start.apply request)

theorem collection_apply_upsert (present : store.collection name = .ok found)
    (batch : List Point) :
    (store.apply (.upsert name batch)).collection name =
      .ok { found with
        points := Table.putAll Point.id found.points (taken found.dimensions [batch]) } := by
  simp only [apply]
  obtain ⟨fits, written⟩ | ⟨odd, error, refused⟩ := upsert_eq present batch
  · rw [written, taken, List.filter_singleton, fits]
    simpa [Except.toOption] using
      collection_put present (Table.putAll Point.id found.points batch)
  · rw [refused, taken, List.filter_singleton, odd]
    exact present

theorem collection_upserts (present : store.collection name = .ok found)
    (batches : List (List Point)) :
    ((batches.map (Request.upsert name)).foldl apply store).collection name =
      .ok { found with
        points := Table.putAll Point.id found.points (taken found.dimensions batches) } := by
  induction batches generalizing store found with
  | nil => exact present
  | cons batch rest ih =>
      have both : taken found.dimensions (batch :: rest) =
          taken found.dimensions [batch] ++ taken found.dimensions rest := by
        rw [taken, ← List.singleton_append, List.filter_append, List.flatten_append]
        rfl
      rw [List.map_cons, List.foldl_cons, ih (collection_apply_upsert present batch), both,
        Table.putAll, Table.putAll, Table.putAll, List.foldl_append]

theorem upserts_of_missing {error : VectorError} (missing : store.collection name = .error error)
    (batches : List (List Point)) :
    (batches.map (Request.upsert name)).foldl apply store = store := by
  induction batches with
  | nil => rfl
  | cons batch rest ih =>
      have refused : store.apply (.upsert name batch) = store := by
        simp only [apply, upsert, missing]
        rfl
      rw [List.map_cons, List.foldl_cons, refused, ih]

theorem exists_collection_of_upserts {batches : List (List Point)}
    (present :
      ((batches.map (Request.upsert name)).foldl apply store).collection name = .ok found) :
    ∃ before, store.collection name = .ok before ∧ before.dimensions = found.dimensions ∧
      found.points = Table.putAll Point.id before.points (taken found.dimensions batches) := by
  cases earlier : store.collection name with
  | error error =>
      rw [upserts_of_missing earlier, earlier] at present
      cases present
  | ok before =>
      rw [collection_upserts earlier] at present
      cases present
      exact ⟨before, rfl, rfl, rfl⟩

theorem search_eq (present : store.collection name = .ok found) (query : Embedding) (limit : Nat) :
    store.search name query limit =
      .ok (((found.points.map (Point.hit query)).mergeSort Hit.ranks).take limit) := by
  simp only [search, present]
  rfl

theorem ranked_hits {query : Embedding} (unique : Table.Unique Point.id found.points)
    (numbers : ∀ point ∈ found.points, (Embedding.cosine query point.vector).isNaN = false) :
    Hit.Ranked (found.points.map (Point.hit query)) where
  numbers := List.forall_mem_map.mpr numbers
  ids := by
    rw [List.map_map]
    exact unique

theorem perm_of_point?_eq {found' : Collection} (unique : Table.Unique Point.id found.points)
    (unique' : Table.Unique Point.id found'.points) (same : found'.point? = found.point?) :
    found'.points.Perm found.points := by
  refine Table.perm_of_mem_iff unique' unique fun point => ?_
  have alike : Table.get? Point.id found'.points point.id =
      Table.get? Point.id found.points point.id := congrFun same point.id
  rw [Table.mem_iff_get? unique', Table.mem_iff_get? unique, alike]

theorem point?_congr {found' : Collection} {rows new new' : List Point}
    (written : found.points = Table.putAll Point.id rows new)
    (written' : found'.points = Table.putAll Point.id rows new')
    (same : ∀ point, Table.IsLast Point.id new' point ↔ Table.IsLast Point.id new point) :
    found'.point? = found.point? := by
  have empty : Table.Unique Point.id [] := List.nodup_nil
  have alike (id : String) : Table.get? Point.id (Table.putAll Point.id [] new') id =
      Table.get? Point.id (Table.putAll Point.id [] new) id := by
    apply Option.ext
    intro point
    rw [Table.get?_eq_some_iff (empty.putAll new'), Table.get?_eq_some_iff (empty.putAll new),
      Table.mem_putAll_nil, Table.mem_putAll_nil, same]
  funext id
  rw [Collection.point?, Collection.point?, written, written', Table.get?_putAll, alike,
    ← Table.get?_putAll]

theorem search_congr {store' : VectorStore} {found' : Collection} {query : Embedding}
    (keyed : store.Keyed) (keyed' : store'.Keyed) (present : store.collection name = .ok found)
    (present' : store'.collection name = .ok found') (same : found'.point? = found.point?)
    (numbers : ∀ point ∈ found.points, (Embedding.cosine query point.vector).isNaN = false)
    (limit : Nat) : store'.search name query limit = store.search name query limit := by
  have perm := perm_of_point?_eq (keyed.unique present) (keyed'.unique present') same
  have ranked := ranked_hits (keyed.unique present) numbers
  rw [search_eq present', search_eq present,
    ranked.mergeSort_perm (perm.symm.map (Point.hit query))]

/-- The search of a collection returns its best points for the query, with scores that are numbers:
as many as the limit leaves room for, the better scores first and equal ones by identifier. A larger
limit only adds hits at the end. Collections that hold the same points for the same identifiers
answer alike, so batches of points may come in another order, and in other batches, as long as the
same point is written last for each identifier. -/
theorem search_is_exact_and_stable (requests : List Request) (name : String) (query : Embedding)
    {found : Collection} (present : (run requests).collection name = .ok found)
    (numbers : ∀ point ∈ found.points, (Embedding.cosine query point.vector).isNaN = false) :
    (∀ limit, ∃ best, (run requests).search name query limit = .ok best ∧
      Hit.Best limit (found.points.map (Point.hit query)) best ∧
      ∀ more, limit ≤ more →
        ∃ longer, (run requests).search name query more = .ok longer ∧ best <+: longer) ∧
    (∀ others found', (run others).collection name = .ok found' → found'.point? = found.point? →
      ∀ limit, (run others).search name query limit = (run requests).search name query limit) ∧
    ∀ (earlier : List Request) (batches batches' : List (List Point)),
      requests = earlier ++ batches.map (.upsert name) →
      (∀ point, Table.IsLast Point.id (taken found.dimensions batches') point ↔
        Table.IsLast Point.id (taken found.dimensions batches) point) →
      ∀ limit, (run (earlier ++ batches'.map (.upsert name))).search name query limit =
        (run requests).search name query limit := by
  have keyed := keyed_run requests
  refine ⟨fun limit => ?_, ?_, ?_⟩
  · have ranked := ranked_hits (keyed.unique present) numbers
    refine ⟨_, search_eq present query limit, ranked.best limit, fun more larger => ?_⟩
    exact ⟨_, search_eq present query more, List.take_prefix_take_left larger⟩
  · intro others found' present' same
    exact search_congr keyed (keyed_run others) present present' same numbers
  · rintro earlier batches batches' rfl same
    have upserted := present
    rw [run_append] at upserted
    obtain ⟨before, old, dimensions, written⟩ := exists_collection_of_upserts upserted
    have present' := collection_upserts old batches'
    rw [← run_append, dimensions] at present'
    exact search_congr keyed (keyed_run _) present present' (point?_congr written rfl same) numbers

theorem search_after_overwriting :
    (run [.ensure "c" 2, .upsert "c" [⟨"b", [1, 0], []⟩, ⟨"a", [0, 1], []⟩],
      .upsert "c" [⟨"a", [2, 0], []⟩]]).collection "c" =
        .ok ⟨"c", 2, [⟨"b", [1, 0], []⟩, ⟨"a", [2, 0], []⟩]⟩ ∧
    (∀ point ∈ ([⟨"b", [1, 0], []⟩, ⟨"a", [2, 0], []⟩] : List Point),
      (Embedding.cosine [1, 0] point.vector).isNaN = false) ∧
    ∀ limit, (run [.ensure "c" 2, .upsert "c" [⟨"a", [2, 0], []⟩, ⟨"b", [1, 0], []⟩]]).search "c"
        [1, 0] limit =
      (run [.ensure "c" 2, .upsert "c" [⟨"b", [1, 0], []⟩, ⟨"a", [0, 1], []⟩],
        .upsert "c" [⟨"a", [2, 0], []⟩]]).search "c" [1, 0] limit := by
  have present : (run [.ensure "c" 2, .upsert "c" [⟨"b", [1, 0], []⟩, ⟨"a", [0, 1], []⟩],
      .upsert "c" [⟨"a", [2, 0], []⟩]]).collection "c" =
        .ok ⟨"c", 2, [⟨"b", [1, 0], []⟩, ⟨"a", [2, 0], []⟩]⟩ := rfl
  have numbers : ∀ point ∈ ([⟨"b", [1, 0], []⟩, ⟨"a", [2, 0], []⟩] : List Point),
      (Embedding.cosine [1, 0] point.vector).isNaN = false := by decide +kernel
  refine ⟨present, numbers, ?_⟩
  apply (search_is_exact_and_stable _ "c" [1, 0] present numbers).2.2 [.ensure "c" 2]
    [[⟨"b", [1, 0], []⟩, ⟨"a", [0, 1], []⟩], [⟨"a", [2, 0], []⟩]]
    [[⟨"a", [2, 0], []⟩, ⟨"b", [1, 0], []⟩]] rfl
  intro point
  have first : Table.putAll Point.id []
      (taken 2 [[⟨"a", [2, 0], []⟩, ⟨"b", [1, 0], []⟩]]) =
        [⟨"a", [2, 0], []⟩, ⟨"b", [1, 0], []⟩] := rfl
  have second : Table.putAll Point.id []
      (taken 2 [[⟨"b", [1, 0], []⟩, ⟨"a", [0, 1], []⟩], [⟨"a", [2, 0], []⟩]]) =
        [⟨"b", [1, 0], []⟩, ⟨"a", [2, 0], []⟩] := rfl
  rw [← Table.mem_putAll_nil, ← Table.mem_putAll_nil, first, second]
  simp [or_comm]

end VectorStore

end CodeGraph
