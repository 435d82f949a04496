import TalosP2P.Gdrdrv.ProcDevices

/-!
# Gdrdrv — Device

`nvidia-gdrdrv-device`: the program reads `/proc/devices` until the driver is there, and then puts its
device node in the place of whatever is at `/dev/gdrdrv`.

`unix.Mkdev` and what the kernel makes of a device number are parameters.  What is assumed of them is
that the numbers that went in come out.

* `makeDevice_spec`: what is left at `/dev/gdrdrv`, however the operations end.
* `main_makes_node`: how long the program waits, and what it leaves.
-/

namespace TalosP2P.Gdrdrv

open Python

def targetPerms : Nat := 0o666

def minorNumber : Nat := 0

/-- `uint32(n)`. -/
def uint32 (n : Int) : Nat := (n % 2 ^ 32).toNat

/-- Device numbers, as others make and read them. -/
structure DeviceNumbers where
  /-- `unix.Mkdev`, of two numbers of 32 bits. -/
  mkdev : Nat → Nat → Nat
  /-- The major and the minor number of the node the kernel makes of a device number. -/
  node : Nat → Nat × Nat

/-- The kernel has twelve bits for a major number and twenty for a minor one, and finds those that
`Mkdev` was given. -/
structure DeviceNumbers.Lawful (numbers : DeviceNumbers) : Prop where
  node : ∀ {major minor : Nat}, major < 2 ^ 12 → minor < 2 ^ 20 →
    numbers.node (numbers.mkdev major minor) = (major, minor)

/-- What can be at `/dev/gdrdrv`. -/
inductive Node where
  | characterDevice (mode major minor : Nat)
  | other
  deriving DecidableEq, Repr

/-- How `os.Stat` ends.  It follows links, so a link to nothing does not exist. -/
inductive Stat where
  | found
  | notExist
  | failed
  deriving DecidableEq, Repr

/-- How the operations on `/dev/gdrdrv` end. -/
structure Operations where
  stat : Stat
  remove : Bool
  /-- `mknod`, where nothing stands in its way. -/
  mknod : Bool
  chmod : Bool
  /-- `os.Stat` of the new node. -/
  confirm : Bool
  umask : Nat

/-- The permissions of the node: those of `mknod`, where `chmod` fails. -/
def Operations.mode (ops : Operations) : Nat :=
  if ops.chmod then targetPerms else targetPerms - (targetPerms &&& ops.umask)

/-- `main` from `mknod` on: its exit code, and what is at `/dev/gdrdrv` then. -/
def makeNode (numbers : DeviceNumbers) (ops : Operations) (major : Int) (node : Option Node) :
    Nat × Option Node :=
  if node.isSome ∨ ¬ ops.mknod then (1, node)
  else
    let (maj, min) := numbers.node (numbers.mkdev (uint32 major) minorNumber)
    (if ops.confirm then 0 else 1, some (.characterDevice ops.mode maj min))

/-- What `main` does when it knows the number. -/
def makeDevice (numbers : DeviceNumbers) (ops : Operations) (major : Int) (node : Option Node) :
    Nat × Option Node :=
  match ops.stat with
  | .found => if ops.remove then makeNode numbers ops major none else (1, node)
  | .notExist => makeNode numbers ops major node
  | .failed => (1, node)

structure Ended where
  code : Nat
  /-- The number of times it slept. -/
  waits : Nat
  node : Option Node
  deriving DecidableEq, Repr

/-- `main`, on what it reads of `/proc/devices` one time after another; `none` as long as it waits. -/
def main (numbers : DeviceNumbers) (ops : Operations) (node : Option Node) :
    Nat → List (Option Bytes) → Option Ended
  | _, [] => none
  | waits, file :: files =>
    match findDeviceMajor file with
    | .ok major =>
      some ⟨(makeDevice numbers ops major node).1, waits, (makeDevice numbers ops major node).2⟩
    | .error _ => main numbers ops node (waits + 1) files

/-! ### The node -/

/-- Every operation that has to succeed does: what is there is found and removed, or there is
nothing. -/
def Operations.Succeed (ops : Operations) (node : Option Node) : Prop :=
  (ops.stat = .found ∧ ops.remove ∨ ops.stat = .notExist ∧ node = none) ∧ ops.mknod ∧ ops.confirm

theorem uint32_of_lt {major : Nat} (h : major < 2 ^ 12) : uint32 major = major := by
  rw [uint32]
  omega

section

variable {numbers : DeviceNumbers} (hnumbers : numbers.Lawful) (ops : Operations) {major : Nat}
  (hmajor : major < 2 ^ 12)

include hnumbers hmajor

theorem makeNode_none : makeNode numbers ops major none =
    if ops.mknod then (if ops.confirm then 0 else 1, some (.characterDevice ops.mode major 0))
    else (1, none) := by
  have hnode : numbers.node (numbers.mkdev major minorNumber) = (major, minorNumber) :=
    hnumbers.node hmajor (by decide)
  rw [makeNode, uint32_of_lt hmajor, hnode]
  cases ops.mknod <;> rfl

/-- **The node**: the program succeeds exactly where the operations that have to succeed do.  There is
then the node of the driver; where it fails, there is what was there, or nothing, or that node. -/
theorem makeDevice_spec (node : Option Node) :
    ((makeDevice numbers ops major node).1 = 0 ↔ ops.Succeed node) ∧
    ((makeDevice numbers ops major node).1 = 0 →
      (makeDevice numbers ops major node).2 = some (.characterDevice ops.mode major 0)) ∧
    ((makeDevice numbers ops major node).2 = node ∨ (makeDevice numbers ops major node).2 = none ∨
      (makeDevice numbers ops major node).2 = some (.characterDevice ops.mode major 0)) := by
  have hnone := makeNode_none hnumbers ops hmajor
  rw [makeDevice, Operations.Succeed]
  cases ops.stat with
  | found =>
      cases ops.remove with
      | false => simp
      | true =>
          simp only [if_true, hnone]
          cases ops.mknod <;> cases ops.confirm <;> simp
  | notExist =>
      cases node with
      | none =>
          simp only [hnone]
          cases ops.mknod <;> cases ops.confirm <;> simp
      | some node => simp [makeNode]
  | failed => simp

end

/-! ### The loop -/

/-- The number of the driver, where `/proc/devices` could be read and lists it. -/
def listed (poll : Option Devices) : Option Nat := poll.bind Devices.major

theorem findDeviceMajor_poll (poll : Option Devices) :
    (∀ major, listed poll = some major →
      findDeviceMajor (poll.map Devices.render) = .ok (major : Int)) ∧
    (listed poll = none → ∃ e, findDeviceMajor (poll.map Devices.render) = .error e) := by
  cases poll with
  | none => exact ⟨fun major h => (by cases h), fun _ => ⟨.opening, rfl⟩⟩
  | some d =>
      have hrender := findDeviceMajor_render d
      constructor
      · intro major h
        have hmajor : d.major = some major := h
        rw [hmajor] at hrender
        exact hrender
      · intro h
        have hmajor : d.major = none := h
        rw [hmajor] at hrender
        exact ⟨.notFound, hrender⟩

theorem lt_of_listed {poll : Option Devices} {major : Nat} (h : listed poll = some major) :
    major < 2 ^ 12 := by
  obtain ⟨d, -, hd⟩ := Option.bind_eq_some_iff.mp h
  obtain ⟨e, -, rfl⟩ := Option.map_eq_some_iff.mp hd
  exact e.major_lt

theorem main_cases (numbers : DeviceNumbers) (ops : Operations) (node : Option Node) (waits : Nat)
    (polls : List (Option Devices)) :
    (main numbers ops node waits (polls.map (Option.map Devices.render)) = none ∧
      ∀ poll ∈ polls, listed poll = none) ∨
    ∃ before poll after major, polls = before ++ poll :: after ∧
      (∀ earlier ∈ before, listed earlier = none) ∧ listed poll = some major ∧
      main numbers ops node waits (polls.map (Option.map Devices.render)) =
        some ⟨(makeDevice numbers ops major node).1, waits + before.length,
          (makeDevice numbers ops major node).2⟩ := by
  induction polls generalizing waits with
  | nil => exact .inl ⟨rfl, fun _ h => absurd h List.not_mem_nil⟩
  | cons poll polls ih =>
      obtain ⟨hfound, hwaits⟩ := findDeviceMajor_poll poll
      cases hlisted : listed poll with
      | some major =>
          refine .inr ⟨[], poll, polls, major, rfl, fun _ h => absurd h List.not_mem_nil,
            hlisted, ?_⟩
          rw [List.map_cons, main, hfound major hlisted]
          rfl
      | none =>
          obtain ⟨e, he⟩ := hwaits hlisted
          rw [List.map_cons, main, he]
          rcases ih (waits + 1) with ⟨hnone, hall⟩ | ⟨before, p, after, major, rfl, hbefore, hp, hrun⟩
          · exact .inl ⟨hnone, List.forall_mem_cons.mpr ⟨hlisted, hall⟩⟩
          · refine .inr ⟨poll :: before, p, after, major, rfl,
              List.forall_mem_cons.mpr ⟨hlisted, hbefore⟩, hp, ?_⟩
            simp only
            rw [hrun, List.length_cons, Nat.add_right_comm, Nat.add_assoc]

/-- **The program**, over any time: it waits as long as `/proc/devices` cannot be read or does not list
the driver, and ends at the first time it does.  It succeeds exactly where the operations that have to
succeed do, and then the node of the driver is in the place of whatever was there; where it fails,
there is what was there, or nothing, or that node, and never a new one of another number. -/
theorem main_makes_node {numbers : DeviceNumbers} (hnumbers : numbers.Lawful) (ops : Operations)
    (node : Option Node) (polls : List (Option Devices)) :
    (main numbers ops node 0 (polls.map (Option.map Devices.render)) = none ↔
      ∀ poll ∈ polls, listed poll = none) ∧
    ∀ ended ∈ main numbers ops node 0 (polls.map (Option.map Devices.render)),
      ∃ before poll after major, polls = before ++ poll :: after ∧ ended.waits = before.length ∧
        (∀ earlier ∈ before, listed earlier = none) ∧ listed poll = some major ∧
        (ended.code = 0 ↔ ops.Succeed node) ∧
        (ended.code = 0 → ended.node = some (.characterDevice ops.mode major 0)) ∧
        (ended.node = node ∨ ended.node = none ∨
          ended.node = some (.characterDevice ops.mode major 0)) := by
  rcases main_cases numbers ops node 0 polls with
    ⟨hnone, hall⟩ | ⟨before, poll, after, major, hpolls, hbefore, hpoll, hrun⟩
  · rw [hnone]
    exact ⟨iff_of_true rfl hall, fun ended h => by cases h⟩
  · rw [hrun]
    refine ⟨iff_of_false (Option.some_ne_none _) fun hall => ?_, fun ended hended => ?_⟩
    · have hlisted := hall poll (by rw [hpolls]; simp)
      rw [hpoll] at hlisted
      cases hlisted
    · obtain rfl := Option.mem_some_iff.mp hended
      exact ⟨before, poll, after, major, hpolls, Nat.zero_add _, hbefore, hpoll,
        makeDevice_spec hnumbers ops (lt_of_listed hpoll) node⟩

/-- `unix.Mkdev`, and the numbers the kernel takes from the low 32 bits of a device number. -/
def linuxNumbers : DeviceNumbers where
  mkdev major minor :=
    major % 2 ^ 12 * 2 ^ 8 + major / 2 ^ 12 * 2 ^ 44 + minor % 2 ^ 8 + minor / 2 ^ 8 * 2 ^ 20
  node dev :=
    let dev := dev % 2 ^ 32
    (dev / 2 ^ 8 % 2 ^ 12, dev % 2 ^ 8 + dev / 2 ^ 20 * 2 ^ 8)

theorem linuxNumbers_lawful : linuxNumbers.Lawful where
  node := by
    intro major minor hmajor hminor
    simp only [linuxNumbers, Prod.mk.injEq]
    omega

/-- The driver, behind another device. -/
def sampleDevices : Devices where
  characters := [⟨1, encodeUtf8 "mem", by decide, by decide, by decide⟩,
    ⟨508, encodeUtf8 "gdrdrv", by decide, by decide, by decide⟩]
  blocks := []

theorem main_makes_node_waits : ∃ ended,
    main linuxNumbers ⟨.found, true, true, false, true, 0o022⟩ (some .other) 0
        ([none, some sampleDevices].map (Option.map Devices.render)) = some ended ∧
      ended.code = 0 ∧ ended.node = some (.characterDevice 0o644 508 0) := by
  obtain ⟨hwaits, hends⟩ := main_makes_node linuxNumbers_lawful ⟨.found, true, true, false, true, 0o022⟩
    (some .other) [none, some sampleDevices]
  have hlisted : listed (some sampleDevices) = some 508 := by decide +kernel
  obtain ⟨ended, hended⟩ := Option.ne_none_iff_exists'.mp (mt hwaits.mp fun hall =>
    absurd (hlisted.symm.trans (hall _ (by simp))) (Option.some_ne_none _))
  obtain ⟨before, poll, after, major, hpolls, -, -, hpoll, hsucceed, hnode, -⟩ := hends ended hended
  have hcode : ended.code = 0 := hsucceed.mpr ⟨.inl ⟨rfl, rfl⟩, rfl, rfl⟩
  refine ⟨ended, hended, hcode, ?_⟩
  have hmem : poll ∈ [none, some sampleDevices] := by rw [hpolls]; simp
  rw [hnode hcode]
  rcases List.mem_cons.mp hmem with rfl | hmem
  · cases hpoll
  · obtain rfl := List.mem_singleton.mp hmem
    cases hlisted.symm.trans hpoll
    rfl

end TalosP2P.Gdrdrv
