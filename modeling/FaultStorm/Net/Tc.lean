import FaultStorm.Python.Dict
import FaultStorm.Python.Text

/-!
# The traffic control of one interface

A `prio` root qdisc with handle `1:` and a priomap that sends everything to class `1:1`,
`netem` children that delay the packets of their class, and `u32` filters that give the
packets for one address a class. Minor numbers of class ids are read and printed in
hexadecimal.
-/

namespace Tc

open Python

/-- The minor number of a class id `1:N`. -/
def minor : List Char → Option Nat
  | '1' :: ':' :: digits => Text.parseHex digits
  | _ => none

/-- A `netem` qdisc and the delay of its packets. -/
structure Netem where
  handle : List Char
  delayMs : Int
  deriving DecidableEq, Repr

/-- A `u32` filter on the destination address. -/
structure Filter where
  prio : Nat
  dst : String
  flowid : Nat
  deriving DecidableEq, Repr

/-- A `prio` root qdisc: its classes are `1:1` up to `1:bands`. -/
structure Prio where
  bands : Nat
  netem : Dict Nat Netem
  filters : List Filter

/-- The root qdisc of the interface; nothing stands for the kernel's default. -/
abbrev Iface := Option Prio

inductive Command
  /-- `qdisc add root handle 1: prio bands N priomap 0 ... 0` -/
  | addPrio (bands : Nat)
  /-- `qdisc add parent P handle H netem delay Dms` -/
  | addNetem (parent handle : List Char) (delayMs : Int)
  /-- `filter add protocol ip parent 1:0 prio N u32 match ip dst A/32 flowid F` -/
  | addFilter (prio : Nat) (dst : String) (flowid : List Char)
  /-- `qdisc change parent P handle H netem delay Dms` -/
  | changeNetem (parent handle : List Char) (delayMs : Int)
  /-- `qdisc del parent P handle H` -/
  | delNetem (parent handle : List Char)
  /-- `qdisc del root` -/
  | delRoot
  deriving DecidableEq, Repr

/-- The filters with a new one, which stands behind those of its priority. -/
def insertFilter (f : Filter) (filters : List Filter) : List Filter :=
  filters.takeWhile (·.prio ≤ f.prio) ++ f :: filters.dropWhile (·.prio ≤ f.prio)

/-- The class whose `netem` qdisc has this parent and this handle. -/
def Prio.netemAt (root : Prio) (parent handle : List Char) : Option Nat :=
  (minor parent).filter fun n => (root.netem.get? n).any (·.handle = handle)

/-- Run a command: the interface after it, or nothing if it fails. -/
def run : Command → Iface → Option Iface
  | .addPrio bands, none =>
      if 2 ≤ bands ∧ bands ≤ 16 then some (some { bands, netem := Dict.empty, filters := [] }) else none
  | .addPrio _, some _ => none
  | .addNetem parent handle delayMs, some root =>
      match minor parent with
      | some n =>
        if 1 ≤ n ∧ n ≤ root.bands ∧ root.netem.get? n = none then
          some (some { root with netem := root.netem.set n ⟨handle, delayMs⟩ })
        else none
      | none => none
  | .addFilter prio dst flowid, some root =>
      match minor flowid with
      | some n => some (some { root with filters := insertFilter ⟨prio, dst, n⟩ root.filters })
      | none => none
  | .changeNetem parent handle delayMs, some root =>
      (root.netemAt parent handle).map fun n => some { root with netem := root.netem.set n ⟨handle, delayMs⟩ }
  | .delNetem parent handle, some root =>
      (root.netemAt parent handle).map fun n => some { root with netem := root.netem.erase n }
  | .delRoot, some _ => some none
  | _, none => none

/-- The class of the packets for an address: that of the first filter that matches, else the
priomap's. -/
def Prio.classOf (root : Prio) (dst : String) : Nat :=
  match root.filters.find? (·.dst = dst) with
  | some f => f.flowid
  | none => 1

/-- The delay of the packets for an address. -/
def delayTo (iface : Iface) (dst : String) : Int :=
  match iface with
  | none => 0
  | some root => match root.netem.get? (root.classOf dst) with
    | some netem => netem.delayMs
    | none => 0

/-! ## Reachable states -/

/-- The `netem` qdiscs are attached to classes of the root. -/
def WellFormed (iface : Iface) : Prop :=
  ∀ root, iface = some root → ∀ n netem, root.netem.get? n = some netem → 1 ≤ n ∧ n ≤ root.bands

/-- A parent and a handle name the class of that parent if its `netem` qdisc has that handle. -/
theorem Prio.netemAt_eq_some {root : Prio} {parent handle : List Char} {n : Nat} :
    root.netemAt parent handle = some n ↔
      minor parent = some n ∧ ∃ netem, root.netem.get? n = some netem ∧ netem.handle = handle := by
  unfold Prio.netemAt
  rw [Option.filter_eq_some_iff]
  cases root.netem.get? n <;> simp

/-- Every command keeps the qdiscs well formed. -/
theorem run_wellFormed {command : Command} {iface after : Iface} (formed : WellFormed iface)
    (ran : run command iface = some after) : WellFormed after := by
  cases iface with
  | none =>
    cases command <;> simp only [run] at ran <;> try cases ran
    split at ran <;> cases ran
    rintro root ⟨rfl⟩ n netem found
    rw [Dict.get?_empty] at found
    cases found
  | some root =>
    have classes := formed root rfl
    cases command with
    | addPrio bands => cases ran
    | addNetem parent handle delayMs =>
      simp only [run] at ran
      split at ran
      · split at ran
        · rename_i bounds
          cases ran
          rintro _ ⟨rfl⟩ m netem found
          rw [Dict.get?_set] at found
          split at found
          · rename_i here
            subst here
            exact ⟨bounds.1, bounds.2.1⟩
          · exact classes m netem found
        · cases ran
      · cases ran
    | addFilter prio dst flowid =>
      simp only [run] at ran
      split at ran <;> cases ran
      rintro _ ⟨rfl⟩
      exact classes
    | changeNetem parent handle delayMs =>
      obtain ⟨n, named, rfl⟩ := Option.map_eq_some_iff.mp ran
      obtain ⟨-, netem, found, -⟩ := Prio.netemAt_eq_some.mp named
      rintro _ ⟨rfl⟩ m other there
      rw [Dict.get?_set] at there
      split at there
      · rename_i here
        subst here
        exact classes m netem found
      · exact classes m other there
    | delNetem parent handle =>
      obtain ⟨n, named, rfl⟩ := Option.map_eq_some_iff.mp ran
      rintro _ ⟨rfl⟩ m other there
      rw [Dict.get?_erase] at there
      split at there
      · cases there
      · exact classes m other there
    | delRoot =>
      cases ran
      rintro _ ⟨⟩

/-! ## Listings -/

/-- A class id. -/
def showClass (n : Nat) : List Char := "1:".toList ++ Nat.toDigits 16 n

/-- An address as eight hexadecimal digits. -/
def hexIp (ip : String) : List Char :=
  (ip.toList.splitOn '.').flatMap fun octet =>
    let n := ((Text.parseInt octet).getD 0).toNat
    [Nat.digitChar (n / 16 % 16), Nat.digitChar (n % 16)]

theorem minor_showClass (n : Nat) : minor (showClass n) = some n :=
  Text.parseHex_toDigits n

/-- The line of a `netem` qdisc. -/
def showNetem (item : Nat × Netem) : List Char :=
  "qdisc netem ".toList ++ item.2.handle ++ " parent ".toList ++ showClass item.1 ++
    " limit 1000 delay ".toList ++ (toString item.2.delayMs).toList ++ "ms\n".toList

/-- `tc qdisc show dev eth0`. -/
def showQdisc : Iface → List Char
  | none => "qdisc noqueue 0: root refcnt 2\n".toList
  | some root =>
      "qdisc prio 1: root refcnt 2 bands ".toList ++ (toString root.bands).toList ++
        " priomap 0 0 0 0 0 0 0 0 0 0 0 0 0 0 0 0\n".toList ++ root.netem.items.flatMap showNetem

/-- The two lines of a `u32` filter. -/
def showU32 (f : Filter) : List Char :=
  "filter parent 1: protocol ip pref ".toList ++ (toString f.prio).toList ++
    " u32 chain 0 fh 800::800 order 2048 key ht 800 bkt 0 flowid ".toList ++ showClass f.flowid ++
    "\n  match ".toList ++ hexIp f.dst ++ "/ffffffff at 16\n".toList

/-- `tc filter show dev eth0`. -/
def showFilter : Iface → List Char
  | none => []
  | some root => root.filters.flatMap showU32

end Tc
