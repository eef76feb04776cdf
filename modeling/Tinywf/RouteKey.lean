import Tinywf.CLib
import Tinywf.StdSort
/-!
# RouteKey — the key of a route

What `__generate_key` hashes: the transport type, the other info, the endpoint's parameters, and the addresses, each
with its length before it, in the order of `__addr_less`.  Numbers stand in the buffer as they do in memory, the
lowest byte first. The order of the addresses given does not matter (`key_perm`).  The addresses and the parameters
can be read back from the end of the other info on, but nothing says where that ends (`keyBuffer_inj`,
`route_keys_apart`).
-/
namespace Tinywf

open CLib

/-- `enum TransportType`; the code has a case for any other value. -/
abbrev TransportType := UInt32

def TT_TCP : TransportType := 0

structure EndpointParams where
  maxConnections : UInt64
  connectTimeout : Int32
  responseTimeout : Int32
deriving DecidableEq

/-- An address of an `addrinfo`: the bytes of `ai_addr`, as many as `ai_addrlen` says. -/
structure AddrInfo where
  addr : Bytes
  fits : addr.length < 2 ^ 32
deriving DecidableEq

namespace AddrInfo

def addrlen (x : AddrInfo) : Nat := x.addr.length

end AddrInfo

/-- `memcmp` of as many bytes as both have. -/
def memcmp : Bytes → Bytes → Int
  | a :: as, b :: bs => if a = b then memcmp as bs else (a.toNat : Int) - b.toNat
  | _, _ => 0

/-- `__addr_cmp`. -/
def addrCmp (x y : AddrInfo) : Int :=
  if x.addrlen = y.addrlen then memcmp x.addr y.addr
  else if x.addrlen < y.addrlen then -1
  else 1

/-- `__addr_less`. -/
def addrLess (x y : AddrInfo) : Bool := addrCmp x y < 0

/-- A number of `n` bytes as it stands in memory. -/
def objectBytes : Nat → Nat → Bytes
  | 0, _ => []
  | n + 1, x => UInt8.ofNat x :: objectBytes n (x / 256)

/-- The arguments of `RouteManager::get` that its key is made of. -/
structure RouteRequest where
  type : TransportType
  addrs : List AddrInfo
  found : addrs ≠ []
  otherInfo : Bytes
  epParams : EndpointParams
deriving DecidableEq

def appendAddr (p : AddrInfo) : Bytes := objectBytes 4 p.addrlen ++ p.addr

def EndpointParams.bytes (p : EndpointParams) : Bytes :=
  objectBytes 8 p.maxConnections.toNat ++ objectBytes 4 p.connectTimeout.toUInt32.toNat ++
    objectBytes 4 p.responseTimeout.toUInt32.toNat

/-- `buf` of `__generate_key`. -/
def RouteRequest.keyBuffer (S : StdSort AddrInfo) (r : RouteRequest) : Bytes :=
  objectBytes 4 r.type.toNat ++ r.otherInfo ++ r.epParams.bytes ++
    match r.addrs with
    | [addrinfo] => appendAddr addrinfo
    | addrs => (S.sort addrLess addrs).flatMap appendAddr

/-- `__generate_key`; of the hash, `sha1` is the second eight bytes. -/
def RouteRequest.generateKey (S : StdSort AddrInfo) (sha1 : Bytes → UInt64) (r : RouteRequest) : UInt64 :=
  sha1 (r.keyBuffer S)

/-! ## The order of addresses -/

theorem memcmp_self : ∀ a : Bytes, memcmp a a = 0
  | [] => rfl
  | a :: as => by rw [memcmp, if_pos rfl, memcmp_self as]

theorem memcmp_swap : ∀ a b : Bytes, memcmp a b = - memcmp b a
  | [], [] => rfl
  | [], _ :: _ => rfl
  | _ :: _, [] => rfl
  | a :: as, b :: bs => by
    rw [memcmp, memcmp]
    split
    · rename_i h
      rw [if_pos h.symm, memcmp_swap as bs]
    · rename_i h
      rw [if_neg (Ne.symm h)]
      omega

/-- Of one length, and nothing different found: the same. -/
theorem memcmp_eq_zero : ∀ {a b : Bytes}, a.length = b.length → memcmp a b = 0 → a = b
  | [], [], _, _ => rfl
  | a :: as, b :: bs, hl, h => by
    rw [memcmp] at h
    split at h
    · rename_i hab
      rw [hab, memcmp_eq_zero (Nat.succ.inj hl) h]
    · rename_i hab
      exact absurd (UInt8.toNat_inj.1 (by omega)) hab

theorem memcmp_trans : ∀ {a b c : Bytes}, a.length = b.length → b.length = c.length →
    memcmp a b < 0 → memcmp b c < 0 → memcmp a c < 0
  | [], _, _, _, _, hab, _ => by simp [memcmp] at hab
  | a :: as, b :: bs, c :: cs, hl, hl', hab, hbc => by
    rw [memcmp] at hab hbc ⊢
    split at hab
    · rename_i e
      rw [e]
      split at hbc
      · rename_i e'
        rw [if_pos e']
        exact memcmp_trans (Nat.succ.inj hl) (Nat.succ.inj hl') hab hbc
      · rename_i e'
        rw [if_neg e']
        exact hbc
    · split at hbc
      · rename_i e e'
        rw [← e', if_neg e]
        exact hab
      · rw [if_neg]
        · omega
        · rintro rfl
          omega

theorem addrLess_iff (x y : AddrInfo) :
    addrLess x y = true ↔ x.addrlen < y.addrlen ∨ x.addrlen = y.addrlen ∧ memcmp x.addr y.addr < 0 := by
  unfold addrLess addrCmp
  rw [decide_eq_true_eq]
  split
  · rename_i h
    exact ⟨fun hm => .inr ⟨h, hm⟩, fun hm => by omega⟩
  · split <;> omega

/-- **Addresses that compare equal are the same bytes.** -/
theorem addrLess_ties (x y : AddrInfo) (hxy : addrLess x y = false) (hyx : addrLess y x = false) : x = y := by
  have h1 := mt (addrLess_iff x y).2 (by rw [hxy]; simp)
  have h2 := mt (addrLess_iff y x).2 (by rw [hyx]; simp)
  rw [memcmp_swap y.addr] at h2
  have hl : x.addr.length = y.addr.length := by
    unfold AddrInfo.addrlen at h1 h2
    omega
  have h0 : memcmp x.addr y.addr = 0 := by
    unfold AddrInfo.addrlen at h1 h2
    omega
  cases x
  cases y
  simp only [AddrInfo.mk.injEq]
  exact memcmp_eq_zero hl h0

/-- **`__addr_less` is what `std::sort` asks for.** -/
theorem addrLess_orders : StdSort.Orders addrLess where
  irrefl := fun a h => by
    rw [addrLess_iff, memcmp_self] at h
    omega
  trans := fun a b c hab hbc => by
    rw [addrLess_iff] at hab hbc ⊢
    rcases hab with hab | ⟨lab, hab⟩ <;> rcases hbc with hbc | ⟨lbc, hbc⟩
    · exact .inl (by omega)
    · exact .inl (by omega)
    · exact .inl (by omega)
    · exact .inr ⟨by omega, memcmp_trans lab lbc hab hbc⟩
  incomp_trans := fun a b c hab hbc => by
    have e := addrLess_ties a b (by simpa using hab.1) (by simpa using hab.2)
    rw [e]
    exact hbc

/-! ## The order of the addresses given -/

/-- The one address on its own is written as a list of one is. -/
theorem RouteRequest.keyBuffer_eq (S : StdSort AddrInfo) (r : RouteRequest) :
    r.keyBuffer S = objectBytes 4 r.type.toNat ++ r.otherInfo ++ r.epParams.bytes ++
      (S.sort addrLess r.addrs).flatMap appendAddr := by
  unfold RouteRequest.keyBuffer
  split
  · rename_i a h
    rw [h, S.sort_singleton addrLess_orders, List.flatMap_singleton]
  · rfl

/-- **The addresses may be given in any order**: the buffer is the same, and so is the key. -/
theorem route_key_perm (S : StdSort AddrInfo) (sha1 : Bytes → UInt64) (type : TransportType) (otherInfo : Bytes)
    (epParams : EndpointParams) (l l' : List AddrInfo) (found : l ≠ []) (found' : l' ≠ []) (perm : l.Perm l') :
    RouteRequest.keyBuffer S ⟨type, l, found, otherInfo, epParams⟩ =
        RouteRequest.keyBuffer S ⟨type, l', found', otherInfo, epParams⟩ ∧
      RouteRequest.generateKey S sha1 ⟨type, l, found, otherInfo, epParams⟩ =
        RouteRequest.generateKey S sha1 ⟨type, l', found', otherInfo, epParams⟩ := by
  have same : RouteRequest.keyBuffer S ⟨type, l, found, otherInfo, epParams⟩ =
      RouteRequest.keyBuffer S ⟨type, l', found', otherInfo, epParams⟩ := by
    rw [RouteRequest.keyBuffer_eq, RouteRequest.keyBuffer_eq, S.sort_perm addrLess_orders addrLess_ties perm]
  exact ⟨same, congrArg sha1 same⟩

/-- An address twice, and one of another length, the other way round. -/
theorem route_key_perm_mixed :
    RouteRequest.generateKey (StdSort.insertion _) (List.foldl (fun h b => 31 * h + b.toUInt64) 0)
        ⟨TT_TCP, [⟨[2, 0, 0, 80], by decide⟩, ⟨[10, 0, 0, 80, 0], by decide⟩, ⟨[2, 0, 0, 80], by decide⟩], by simp,
          ascii "redis", ⟨200, 10000, 10000⟩⟩ =
      RouteRequest.generateKey (StdSort.insertion _) (List.foldl (fun h b => 31 * h + b.toUInt64) 0)
        ⟨TT_TCP, [⟨[10, 0, 0, 80, 0], by decide⟩, ⟨[2, 0, 0, 80], by decide⟩, ⟨[2, 0, 0, 80], by decide⟩], by simp,
          ascii "redis", ⟨200, 10000, 10000⟩⟩ :=
  (route_key_perm _ _ _ _ _ _ _ _ _ (.swap ..)).2

/-! ## Reading the buffer back -/

@[simp] theorem objectBytes_length : ∀ n x : Nat, (objectBytes n x).length = n
  | 0, _ => rfl
  | n + 1, x => by rw [objectBytes, List.length_cons, objectBytes_length n]

theorem objectBytes_inj : ∀ {n x y : Nat}, x < 256 ^ n → y < 256 ^ n → objectBytes n x = objectBytes n y → x = y
  | 0, x, y, hx, hy, _ => by omega
  | n + 1, x, y, hx, hy, h => by
    rw [objectBytes, objectBytes, List.cons.injEq] at h
    rw [Nat.pow_succ] at hx hy
    have low : x % 256 = y % 256 := by
      have := congrArg UInt8.toNat h.1
      simpa using this
    have high := objectBytes_inj (Nat.div_lt_of_lt_mul (by omega)) (Nat.div_lt_of_lt_mul (by omega)) h.2
    omega

theorem appendAddr_inj {a b : AddrInfo} {u v : Bytes} (h : appendAddr a ++ u = appendAddr b ++ v) : a = b ∧ u = v := by
  unfold appendAddr at h
  rw [List.append_assoc, List.append_assoc] at h
  obtain ⟨hl, h⟩ := List.append_inj h (by simp)
  have hlen : a.addr.length = b.addr.length := objectBytes_inj a.fits b.fits hl
  obtain ⟨ha, hu⟩ := List.append_inj h hlen
  cases a
  cases b
  cases ha
  exact ⟨rfl, hu⟩

/-- **A list of addresses can be read back.** -/
theorem appendAddrs_inj : ∀ {l l' : List AddrInfo}, l.flatMap appendAddr = l'.flatMap appendAddr → l = l'
  | [], [], _ => rfl
  | [], b :: l', h => by simp [appendAddr, objectBytes] at h
  | a :: l, [], h => by simp [appendAddr, objectBytes] at h
  | a :: l, b :: l', h => by
    rw [List.flatMap_cons, List.flatMap_cons] at h
    obtain ⟨ha, hl⟩ := appendAddr_inj h
    rw [ha, appendAddrs_inj hl]

theorem EndpointParams.bytes_length (p : EndpointParams) : p.bytes.length = 16 := by simp [EndpointParams.bytes]

theorem EndpointParams.bytes_inj {p q : EndpointParams} (h : p.bytes = q.bytes) : p = q := by
  unfold EndpointParams.bytes at h
  obtain ⟨h, hr⟩ := List.append_inj h (by simp)
  obtain ⟨hm, hc⟩ := List.append_inj h (by simp)
  have hm := objectBytes_inj (UInt64.toNat_lt _) (UInt64.toNat_lt _) hm
  have hc := objectBytes_inj (UInt32.toNat_lt _) (UInt32.toNat_lt _) hc
  have hr := objectBytes_inj (UInt32.toNat_lt _) (UInt32.toNat_lt _) hr
  cases p
  cases q
  simp only [EndpointParams.mk.injEq]
  exact ⟨UInt64.toNat_inj.1 hm, Int32.toBitVec_inj.1 (congrArg UInt32.toBitVec (UInt32.toNat_inj.1 hc)),
    Int32.toBitVec_inj.1 (congrArg UInt32.toBitVec (UInt32.toNat_inj.1 hr))⟩

/-- The same endpoint, asked for with the same parameters. -/
structure RouteRequest.SameRoute (x y : RouteRequest) : Prop where
  type : x.type = y.type
  otherInfo : x.otherInfo = y.otherInfo
  maxConnections : x.epParams.maxConnections = y.epParams.maxConnections
  connectTimeout : x.epParams.connectTimeout = y.epParams.connectTimeout
  responseTimeout : x.epParams.responseTimeout = y.epParams.responseTimeout
  addrs : x.addrs.Perm y.addrs

/-- **The buffer says what the route is, given how long the other info is.** -/
theorem RouteRequest.keyBuffer_inj (S : StdSort AddrInfo) {x y : RouteRequest} (h : x.keyBuffer S = y.keyBuffer S)
    (len : x.otherInfo.length = y.otherInfo.length) : x.SameRoute y := by
  rw [keyBuffer_eq, keyBuffer_eq] at h
  obtain ⟨h, ha⟩ := List.append_inj h (by simp [len, EndpointParams.bytes_length])
  obtain ⟨h, hp⟩ := List.append_inj h (by simp [len])
  obtain ⟨ht, ho⟩ := List.append_inj h (by simp)
  have ht := UInt32.toNat_inj.1 (objectBytes_inj (UInt32.toNat_lt _) (UInt32.toNat_lt _) ht)
  have hp := EndpointParams.bytes_inj hp
  refine ⟨ht, ho, by rw [hp], by rw [hp], by rw [hp], ?_⟩
  have hx := S.perm addrLess x.addrs addrLess_orders
  rw [appendAddrs_inj ha] at hx
  exact hx.symm.trans (S.perm addrLess y.addrs addrLess_orders)

/-- **Two routes with one buffer are the same exactly if their other infos are equally long.** -/
theorem route_keys_apart (S : StdSort AddrInfo) (x y : RouteRequest) (h : x.keyBuffer S = y.keyBuffer S) :
    x.SameRoute y ↔ x.otherInfo.length = y.otherInfo.length :=
  ⟨fun same => by rw [same.otherInfo], x.keyBuffer_inj S h⟩

/-- Port 80 of `1000:0:200:1f90:7f00:1::`, with no other info and the default parameters. -/
def bareRoute : RouteRequest where
  type := TT_TCP
  addrs := [⟨[10, 0, 0, 80, 0, 0, 0, 0, 16, 0, 0, 0, 2, 0, 31, 144, 127, 0, 0, 1, 0, 0, 0, 0, 0, 0, 0, 0], by decide⟩]
  found := by simp
  otherInfo := []
  epParams := ⟨200, 10000, 10000⟩

/-- Port 8080 of `127.0.0.1`, with twelve bytes of other info. -/
def infoRoute : RouteRequest where
  type := TT_TCP
  addrs := [⟨[2, 0, 31, 144, 127, 0, 0, 1, 0, 0, 0, 0, 0, 0, 0, 0], by decide⟩]
  found := by simp
  otherInfo := [200, 0, 0, 0, 0, 0, 0, 0, 16, 39, 0, 0]
  epParams := ⟨0x1C00002710, 0x5000000A, 0⟩

/-- They have one buffer, and so one entry. -/
theorem bareRoute_keyBuffer (S : StdSort AddrInfo) : bareRoute.keyBuffer S = infoRoute.keyBuffer S := by
  have bare : bareRoute.keyBuffer S = objectBytes 4 0 ++ [] ++ bareRoute.epParams.bytes ++
    bareRoute.addrs.flatMap appendAddr := rfl
  have info : infoRoute.keyBuffer S = objectBytes 4 0 ++ infoRoute.otherInfo ++ infoRoute.epParams.bytes ++
    infoRoute.addrs.flatMap appendAddr := rfl
  rw [bare, info]
  decide

/-- A pair of routes with one buffer, told apart by their other infos. -/
theorem route_keys_apart_info : ¬ bareRoute.SameRoute infoRoute :=
  fun same => absurd ((route_keys_apart (StdSort.insertion _) bareRoute infoRoute (bareRoute_keyBuffer _)).1 same)
    (by decide)

/-- **Two routes that share a buffer without being the same.** -/
theorem route_keys_collide : ¬ ∀ (S : StdSort AddrInfo) (x y : RouteRequest),
    x.keyBuffer S = y.keyBuffer S → x.SameRoute y := by
  intro h
  have same := h (StdSort.insertion _) bareRoute infoRoute (bareRoute_keyBuffer _)
  exact absurd (congrArg List.length same.otherInfo) (by decide)

end Tinywf
