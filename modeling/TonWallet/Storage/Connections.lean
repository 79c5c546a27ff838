import TonWallet.Storage.Keys

/-!
# The stored connections

The set under `TON_CONNECT_MANIFESTS_KEY`, as the list of the connections it
encodes. A save puts a connection in the place of the one with its manifest; a
removal looks for the id.

* `represents_save`, `represents_delete`: what the two operations of `Storage`
  do to the map of the preferences is this.
-/

namespace TonWallet.Storage

open Encoding Distinct TonConnect

/-! ## The list -/

/-- `saveTonConnectManifest1`, on the connections. -/
def saveManifest (l : List TonConnectConnectionData) (data : TonConnectConnectionData) :
    List TonConnectConnectionData :=
  (l.filter fun it => it.manifest ≠ data.manifest) ++ [data]

/-- `deleteTonConnectConnection`, on the connections. -/
def deleteConnection (l : List TonConnectConnectionData) (data : TonConnectConnectionData) :
    List TonConnectConnectionData :=
  l.filter fun it => it.id ≠ data.id

variable {l : List TonConnectConnectionData} {data c : TonConnectConnectionData}

@[simp] theorem mem_saveManifest :
    c ∈ saveManifest l data ↔ c ∈ l ∧ c.manifest ≠ data.manifest ∨ c = data := by
  simp [saveManifest]

@[simp] theorem mem_deleteConnection : c ∈ deleteConnection l data ↔ c ∈ l ∧ c.id ≠ data.id := by
  simp [deleteConnection]

theorem nodup_saveManifest (h : l.Nodup) : (saveManifest l data).Nodup := by
  refine List.nodup_append.mpr ⟨h.filter _, List.nodup_singleton data, ?_⟩
  rintro a ha b hb rfl
  obtain rfl := List.mem_singleton.mp hb
  simp at ha

/-! ## The map -/

/-- `saveTonConnectManifest1` (`Storage.kt` lines 306–325). -/
def saveTonConnectManifest1 (J : StorageJson) (p : DataStore) (data : TonConnectConnectionData) :
    DataStore :=
  edit p fun p => do
    match ← get Value.asStringSet p tonConnectManifestsKey with
    | none =>
      return Function.update p tonConnectManifestsKey (some (.stringSet [J.encodeConnection data]))
    | some current =>
      let currentList ← current.mapM (decodeJson J.decodeConnection)
      let updated := (currentList.filter fun it => it.manifest ≠ data.manifest) ++ [data]
      return Function.update p tonConnectManifestsKey
        (some (.stringSet (toSet (updated.map J.encodeConnection))))

/-- `p` has the connections of `l`. -/
structure Represents (J : StorageJson) (p : DataStore) (l : List TonConnectConnectionData) :
    Prop where
  read : getTonConnectManifests1 J p = .ok l
  nodup : l.Nodup

variable {J : StorageJson} {p : DataStore}

/-- The set of some connections, each once, represents them. -/
theorem represents_stringSet (hJ : ∀ c ∈ l, J.decodeConnection (J.encodeConnection c) = some c)
    (h : l.Nodup) : Represents J (Function.update p tonConnectManifestsKey
      (some (.stringSet (toSet (l.map J.encodeConnection))))) l := by
  have hset : toSet (l.map J.encodeConnection) = l.map J.encodeConnection := by
    refine distinctBy_of_nodup ?_
    rw [List.map_id]
    refine h.map_on fun a ha b hb hab => ?_
    have hdec := hJ a ha
    rw [hab, hJ b hb] at hdec
    exact (Option.some.inj hdec).symm
  refine ⟨?_, h⟩
  rw [getTonConnectManifests1_stringSet (Function.update_self _ _ _), hset]
  exact mapM_decodeJson hJ

theorem represents_save (data : TonConnectConnectionData) (h : Represents J p l)
    (hJ : ∀ c ∈ saveManifest l data, J.decodeConnection (J.encodeConnection c) = some c) :
    Represents J (saveTonConnectManifest1 J p data) (saveManifest l data) := by
  have hread := h.read
  rw [getTonConnectManifests1] at hread
  cases hk : p tonConnectManifestsKey with
  | none =>
    rw [get_none hk] at hread
    obtain rfl : [] = l := Except.ok.inj hread
    have hp : saveTonConnectManifest1 J p data = Function.update p tonConnectManifestsKey
        (some (.stringSet (toSet ([data].map J.encodeConnection)))) := by
      refine edit_ok ?_
      rw [get_none hk]
      rfl
    rw [hp]
    exact represents_stringSet hJ (nodup_saveManifest h.nodup)
  | some value =>
    cases value with
    | stringSet manifests =>
      rw [get_some hk] at hread
      have hmap : manifests.mapM (decodeJson J.decodeConnection) = .ok l := hread
      have hp : saveTonConnectManifest1 J p data = Function.update p tonConnectManifestsKey
          (some (.stringSet (toSet ((saveManifest l data).map J.encodeConnection)))) := by
        refine edit_ok ?_
        rw [get_some hk]
        show manifests.mapM (decodeJson J.decodeConnection) >>= _ = _
        rw [hmap]
        rfl
      rw [hp]
      exact represents_stringSet hJ (nodup_saveManifest h.nodup)
    | _ =>
      rw [get_some hk] at hread
      cases hread

theorem represents_delete (h : Represents J p l)
    (hJ : ∀ c ∈ l, J.decodeConnection (J.encodeConnection c) = some c)
    (hid : data.id ≠ tonConnectManifestsKey) :
    Represents J (deleteTonConnectConnection J p data) (deleteConnection l data) := by
  have hread := (getTonConnectManifests1_congr (J := J)
    (Function.update_of_ne hid.symm none p)).trans h.read
  have hp : deleteTonConnectConnection J p data
      = Function.update (Function.update p data.id none) tonConnectManifestsKey
        (some (.stringSet (toSet ((deleteConnection l data).map J.encodeConnection)))) :=
    deleteTonConnectConnection_ok hread
  rw [hp]
  exact represents_stringSet (fun c hc => hJ c (mem_deleteConnection.mp hc).1) (h.nodup.filter _)

/-- A removal that looks for the name of the set removes the set, and with it all connections. -/
theorem represents_delete_key (hid : data.id = tonConnectManifestsKey) :
    Represents J (deleteTonConnectConnection J p data) [] := by
  have hread : getTonConnectManifests1 J (Function.update p data.id none) = .ok [] := by
    rw [hid, getTonConnectManifests1, get_none (Function.update_self ..)]
    rfl
  rw [deleteTonConnectConnection_ok hread]
  exact represents_stringSet (List.forall_mem_nil _) List.nodup_nil

end TonWallet.Storage
