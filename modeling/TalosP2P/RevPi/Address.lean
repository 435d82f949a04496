import TalosP2P.Support.Go

/-!
# RevPi — Address

`revpi_mac`, which sets the hardware address of a device to the base address of the board, its last
octet raised by an offset.

* `address_octets`: the address that is set is the base address up to its last octet, and that one is
  the last group of the base and the offset added.
* `main_spec`: the program fails and sets nothing, or sets such an address.
-/

namespace TalosP2P.RevPi

open Go Python

/-- Why the program ends before it sets an address: with the text of `log.Fatalf`, up to what it is
formatted with, or with a code of its own. -/
inductive Stop where
  | fatal (message : String)
  | exit (code : Nat)
  deriving DecidableEq, Repr

/-- The code the program ends with. -/
def Stop.code : Stop → Nat
  | .fatal _ => 1
  | .exit code => code

/-- An error ends the program. -/
def orFatal {α : Type} (message : String) : Option α → Except Stop α
  | some a => .ok a
  | none => .error (.fatal message)

theorem orFatal_eq_ok_iff {α : Type} {message : String} {x : Option α} {a : α} :
    orFatal message x = .ok a ↔ x = some a := by
  cases x <;> simp [orFatal]

/-- What the program finds: the property `custom_5` of the device tree, and the network devices. -/
structure Env (Link : Type) where
  /-- `os.IsNotExist` of the error of `os.Stat`. -/
  isNotExist : Bool
  readFile : Option Bytes
  linkByName : Bytes → Option Link
  /-- Whether `netlink.LinkSetHardwareAddr` returns without an error. -/
  linkSetHardwareAddr : Link → Bytes → Bool

variable {Link : Type}

/-- The last group of the base address. -/
def lastGroup (baseMAC : Bytes) : Bytes := (splitColon baseMAC).getLastD []

/-- The program up to the call of `LinkSetHardwareAddr`: what that is called with. -/
def address (args : List Bytes) (env : Env Link) : Except Stop (Link × Bytes) := do
  let devName ← orFatal "Usage" (if args.length < 3 then none else args[1]?)
  let offset ← orFatal "Invalid offset" (args[2]?.bind fun s => parseInt s 10 64)
  if env.isNotExist then
    throw (.exit 1)
  let baseMAC ← orFatal "Failed to read file" env.readFile
  if baseMAC = [] then
    throw (.exit 2)
  let lastNum ← orFatal "Failed to parse last number" (parseInt (lastGroup baseMAC) 16 16)
  let mac := (splitColon baseMAC).dropLast ++ [sprintf02x (addInt64 lastNum offset)]
  let link ← orFatal "Failed to get interface" (env.linkByName devName)
  let hwAddr ← orFatal "Failed to parse MAC address" (parseMAC (joinColon mac))
  return (link, hwAddr)

/-- How the program ends: with a code, after it called `LinkSetHardwareAddr` or without. -/
structure Ended (Link : Type) where
  code : Nat
  set : Option (Link × Bytes)
  deriving DecidableEq, Repr

def main (args : List Bytes) (env : Env Link) : Ended Link :=
  match address args env with
  | .error stop => ⟨stop.code, none⟩
  | .ok (link, hwAddr) =>
    ⟨if env.linkSetHardwareAddr link hwAddr then 0 else (Stop.fatal "Failed to set MAC address").code,
      some (link, hwAddr)⟩

/-! ### The address -/

/-- A sum of a number of 16 bits and one of 64 that is an octet did not wrap around. -/
theorem addInt64_eq {a b : Int} {o : UInt8} (ha : -2 ^ 15 ≤ a ∧ a < 2 ^ 15)
    (hb : -2 ^ 63 ≤ b ∧ b < 2 ^ 63) (h : (o.toNat : Int) = addInt64 a b) :
    (o.toNat : Int) = a + b := by
  have ho := o.toNat_lt
  rw [addInt64, Int.bmod_def] at h
  split at h <;> omega

/-- The octets of an address whose last group was printed anew. -/
theorem address_octets {baseMAC hwAddr : Bytes} {v : Int}
    (h : parseMAC (joinColon ((splitColon baseMAC).dropLast ++ [sprintf02x v])) = some hwAddr) :
    ∃ front o, hwAddr = front ++ [o] ∧ (splitColon baseMAC).dropLast.mapM octet = some front ∧
      (o.toNat : Int) = v := by
  have hgroups : ∀ group ∈ (splitColon baseMAC).dropLast ++ [sprintf02x v], 0x3a ∉ group := by
    intro group hg
    rcases List.mem_append.mp hg with hg | hg
    · exact not_mem_of_mem_splitColon (List.dropLast_subset _ hg)
    · rw [List.mem_singleton.mp hg]
      exact colon_not_mem_sprintf02x v
  cases hfront : (splitColon baseMAC).dropLast with
  | nil =>
      -- Without a colon there is one group only, and that is no address.
      rw [hfront] at h
      have hjoin : joinColon ([] ++ [sprintf02x v]) = sprintf02x v := by simp [joinColon]
      rw [hjoin, parseMAC_sprintf02x] at h
      cases h
  | cons group groups =>
      rw [hfront] at h hgroups
      have hcolon : 0x3a ∈ joinColon (group :: groups ++ [sprintf02x v]) := by
        rw [joinColon, List.cons_append, List.intercalate_cons_of_ne_nil (by simp)]
        simp
      have hoctets := parseMAC_groups hcolon h
      rw [splitColon_joinColon (by simp) hgroups, List.mapM_append] at hoctets
      obtain ⟨front, hf, hoctets⟩ := Option.bind_eq_some_iff.mp hoctets
      obtain ⟨last, hl, hoctets⟩ := Option.bind_eq_some_iff.mp hoctets
      cases hoctets
      rw [List.mapM_cons, List.mapM_nil] at hl
      obtain ⟨o, ho, hl⟩ := Option.bind_eq_some_iff.mp hl
      cases hl
      exact ⟨front, o, rfl, hf, octet_sprintf02x ho⟩

theorem address_ok {args : List Bytes} {env : Env Link} {link : Link} {hwAddr : Bytes}
    (h : address args env = .ok (link, hwAddr)) :
    ∃ s offset baseMAC lastNum, args[2]? = some s ∧ parseInt s 10 64 = some offset ∧
      env.readFile = some baseMAC ∧ parseInt (lastGroup baseMAC) 16 16 = some lastNum ∧
      parseMAC (joinColon ((splitColon baseMAC).dropLast ++
        [sprintf02x (addInt64 lastNum offset)])) = some hwAddr := by
  obtain ⟨devName, -, h⟩ := bind_eq_ok_iff.mp h
  obtain ⟨offset, hoffset, h⟩ := bind_eq_ok_iff.mp h
  obtain ⟨s, hs, hoffset⟩ := Option.bind_eq_some_iff.mp (orFatal_eq_ok_iff.mp hoffset)
  split at h
  · cases h
  · obtain ⟨baseMAC, hbase, h⟩ := bind_eq_ok_iff.mp h
    split at h
    · cases h
    · obtain ⟨lastNum, hlast, h⟩ := bind_eq_ok_iff.mp h
      obtain ⟨link', -, h⟩ := bind_eq_ok_iff.mp h
      obtain ⟨hwAddr', haddr, h⟩ := bind_eq_ok_iff.mp h
      cases h
      exact ⟨s, offset, baseMAC, lastNum, hs, hoffset, orFatal_eq_ok_iff.mp hbase,
        orFatal_eq_ok_iff.mp hlast, orFatal_eq_ok_iff.mp haddr⟩

theorem code_of_orFatal {α : Type} {message : String} {x : Option α} {stop : Stop}
    (h : orFatal message x = .error stop) : stop.code ≠ 0 := by
  cases x with
  | some a => cases h
  | none =>
      cases h
      exact Nat.one_ne_zero

/-- A program that sets no address fails. -/
theorem code_of_address {args : List Bytes} {env : Env Link} {stop : Stop}
    (h : address args env = .error stop) : stop.code ≠ 0 := by
  rcases bind_eq_error_iff.mp h with h | ⟨devName, -, h⟩
  · exact code_of_orFatal h
  rcases bind_eq_error_iff.mp h with h | ⟨offset, -, h⟩
  · exact code_of_orFatal h
  split at h
  · cases h
    exact Nat.one_ne_zero
  rcases bind_eq_error_iff.mp h with h | ⟨baseMAC, -, h⟩
  · exact code_of_orFatal h
  split at h
  · cases h
    decide
  rcases bind_eq_error_iff.mp h with h | ⟨lastNum, -, h⟩
  · exact code_of_orFatal h
  rcases bind_eq_error_iff.mp h with h | ⟨link, -, h⟩
  · exact code_of_orFatal h
  rcases bind_eq_error_iff.mp h with h | ⟨hwAddr, -, h⟩
  · exact code_of_orFatal h
  · cases h

/-- **The program** fails and sets nothing, or sets an address whose last octet is the last group of
the base and the offset, added without wrapping around, and whose other octets are those of the
base. -/
theorem main_spec (args : List Bytes) (env : Env Link) :
    ((main args env).code ≠ 0 ∧ (main args env).set = none) ∨
      ∃ link front o s offset baseMAC lastNum, (main args env).set = some (link, front ++ [o]) ∧
        args[2]? = some s ∧ parseInt s 10 64 = some offset ∧ env.readFile = some baseMAC ∧
        parseInt (lastGroup baseMAC) 16 16 = some lastNum ∧
        (splitColon baseMAC).dropLast.mapM octet = some front ∧
        (o.toNat : Int) = lastNum + offset ∧ 0 ≤ lastNum + offset ∧ lastNum + offset ≤ 255 := by
  rw [main]
  cases h : address args env with
  | error stop =>
      exact .inl ⟨code_of_address h, rfl⟩
  | ok call =>
      obtain ⟨link, hwAddr⟩ := call
      obtain ⟨s, offset, baseMAC, lastNum, hs, hoffset, hbase, hlast, haddr⟩ := address_ok h
      obtain ⟨front, o, rfl, hfront, ho⟩ := address_octets haddr
      have hsum := addInt64_eq (parseInt_bounds hlast) (parseInt_bounds hoffset) ho
      have hlt := o.toNat_lt
      exact .inr ⟨link, front, o, s, offset, baseMAC, lastNum, rfl, hs, hoffset, hbase, hlast, hfront,
        hsum, by omega, by omega⟩

/-- A board with the base address `c8:3e:a7:00:00:fe` and one device. -/
def board : Env Unit := ⟨false, some (encodeUtf8 "c8:3e:a7:00:00:fe"), fun _ => some (), fun _ _ => true⟩

/-- The next address is set, and the one after it, whose last octet would be `100`, is not. -/
example : (main [encodeUtf8 "revpi_mac", encodeUtf8 "eth1", encodeUtf8 "1"] board).set =
      some ((), [0xc8, 0x3e, 0xa7, 0x00, 0x00, 0xff]) ∧
    main [encodeUtf8 "revpi_mac", encodeUtf8 "eth1", encodeUtf8 "2"] board = ⟨1, none⟩ := by
  decide +kernel

end TalosP2P.RevPi
