import FaultStorm.Faults.Presets

/-!
# What the decoders accept

A part of a parameter string is a word. So the parameters that `deserialize` reads can stand in a
line again, apart from those that it leaves unset: a decoder accepts a line without the node of a
partition, without the DC, and without the target of a freeze.
-/

namespace FaultStorm

open Python Python.Text

/-! ## Parts -/

section Parts

variable {params : String} {i : Nat} {w : List Char}

theorem word_of_part (found : (paramParts params)[i]? = some w) : Word w :=
  word_of_mem_split (List.mem_of_getElem? found)

theorem part_ok {parts : List (List Char)} (ok : part parts i = .ok w) : parts[i]? = some w := by
  unfold part at ok
  split at ok
  · rename_i found
    rw [found]
    exact congrArg some (Except.ok.inj ok)
  · cases ok

theorem token_of_word (word : Word w) : Token (String.ofList w) := by
  unfold Token
  rwa [String.toList_ofList]

theorem stringPart_ok {s : String} (ok : stringPart (paramParts params) i = .ok s) : Token s := by
  obtain ⟨w, found, rfl⟩ := map_ok ok
  exact token_of_word (word_of_part (part_ok found))

theorem optionalPart_some {s : String} (set : optionalPart (paramParts params) i = some s) : Token s := by
  obtain ⟨w, found, rfl⟩ := Option.map_eq_some_iff.mp set
  exact token_of_word (word_of_part found)

/-- The names that are read from a part are written as this part again. -/
theorem csv_parseCsv (token : List Char) : csv (parseCsv token) = String.ofList token := by
  have texts : (parseCsv token).map String.toList = token.splitOn ',' := by
    rw [parseCsv, List.map_map]
    exact List.map_id'' (fun l => String.toList_ofList) _
  rw [csv, texts]
  exact congrArg String.ofList (List.intercalate_splitOn ',')

theorem csvToken_parseCsv (word : Word w) : CsvToken (parseCsv w) := by
  constructor
  · rw [csv_parseCsv]
    exact token_of_word word
  · intro name member comma
    obtain ⟨l, among, rfl⟩ := List.mem_map.mp member
    rw [String.toList_ofList] at comma
    rw [List.splitOn_eq_splitOnP] at among
    exact absurd (splitOnP_plain w l among ',' comma) (by decide)

theorem csvPart_ok {names : List String} (ok : parseCsv <$> part (paramParts params) i = .ok names) :
    CsvToken names := by
  obtain ⟨w, found, rfl⟩ := map_ok ok
  exact csvToken_parseCsv (word_of_part (part_ok found))

theorem csvPart_cases (params : String) (i : Nat) (default : List String) :
    csvPart (paramParts params) i default = default ∨ CsvToken (csvPart (paramParts params) i default) := by
  unfold csvPart
  split
  · rename_i found
    split
    · exact Or.inl rfl
    · exact Or.inr (csvToken_parseCsv (word_of_part found))
  · exact Or.inl rfl

/-! ## Ranges -/

/-- A number without a sign is not negative. -/
theorem pyInt_nonneg {text : List Char} {z : Int} (unsigned : '-' ∉ text) (ok : pyInt text = .ok z) : 0 ≤ z := by
  unfold pyInt at ok
  split at ok
  · rename_i z' parsed
    obtain rfl : z' = z := Except.ok.inj ok
    have digits : ∀ {s : List Char}, ((digitsFrom 0 false s).map fun n => (n : Int)) = some z' → 0 ≤ z' := by
      intro s eq
      cases read : digitsFrom 0 false s with
      | none => simp [read] at eq
      | some n =>
        have value : (n : Int) = z' := by simpa [read] using eq
        omega
    unfold parseInt at parsed
    split at parsed
    · rename_i rest eq
      have inside : '-' ∈ strip text := by rw [eq]; exact List.mem_cons_self
      exact absurd (stripWhile_subset isSpace text inside) unsigned
    · exact digits parsed
    · exact digits parsed
  · cases ok

theorem deserializeRange_nonneg {token : List Char} {range : Int × Int}
    (ok : BaseFreezeAction.deserializeRange token = .ok range) : 0 ≤ range.1 ∧ 0 ≤ range.2 := by
  unfold BaseFreezeAction.deserializeRange at ok
  split at ok
  · rename_i lo hi eq
    obtain ⟨x, first, ok⟩ := bind_ok ok
    obtain ⟨y, second, ok⟩ := bind_ok ok
    obtain rfl := Except.ok.inj ok
    have unsigned : ∀ l ∈ [lo, hi], '-' ∉ l := by
      intro l member dash
      rw [← eq, List.splitOn_eq_splitOnP] at member
      exact absurd (splitOnP_plain token l member '-' dash) (by decide)
    exact ⟨pyInt_nonneg (unsigned lo (by simp)) first, pyInt_nonneg (unsigned hi (by simp)) second⟩
  · cases ok

end Parts

/-! ## Each class -/

/-- The parameters that a line gives can stand in a line. -/
def Decoded : ActionObj Builtin → Prop
  | .custom (.node a) => ∀ node, a.node = some node → Token node
  | .custom (.dc a) => ∀ dcName, a.dcName = some dcName → Token dcName
  | .custom (.freeze a) => a.toBaseFreezeAction.Preset ∧ ∀ node, a.node = some node → Token node
  | .custom (.freezeGroup a) => a.toBaseFreezeAction.Preset ∧ ∀ group, a.group = some group → Token group
  | obj => Preset obj

/-- An object that was read from a line, over these nodes and this DC map. -/
structure ReadOver (dbNodes extraNodes : List String) (dcMap : DcMap) (obj : ActionObj Builtin) : Prop where
  dbNodes : (baseOf obj).dbNodes = dbNodes
  extraNodes : (baseOf obj).extraNodes = extraNodes
  dcMap : (baseOf obj).dcMap = dcMap
  decoded : Decoded obj

section Decode

variable {params : String} {dbNodes extraNodes : List String} {dcMap : DcMap}

theorem WaitAction.decoded {a : WaitAction} (ok : deserialize params dbNodes extraNodes dcMap = .ok a) :
    ReadOver dbNodes extraNodes dcMap (.wait a) := by
  obtain ⟨_, _, ok⟩ := bind_ok ok
  obtain ⟨_, _, ok⟩ := bind_ok ok
  obtain ⟨_, _, ok⟩ := bind_ok ok
  obtain ⟨_, _, ok⟩ := bind_ok ok
  obtain rfl := Except.ok.inj ok
  exact ⟨rfl, rfl, rfl, trivial⟩

theorem KillProcessAction.decoded {a : KillProcessAction} (ok : deserialize params dbNodes extraNodes dcMap = .ok a) :
    ReadOver dbNodes extraNodes dcMap (.custom (.kill a)) := by
  obtain ⟨_, _, ok⟩ := bind_ok ok
  obtain ⟨_, _, ok⟩ := bind_ok ok
  obtain ⟨process, first, ok⟩ := bind_ok ok
  obtain ⟨node, second, ok⟩ := bind_ok ok
  obtain rfl := Except.ok.inj ok
  exact ⟨rfl, rfl, rfl, ⟨process, rfl, stringPart_ok first⟩, node, rfl, stringPart_ok second⟩

theorem PartitionRandomHalvesAction.decoded {a : PartitionRandomHalvesAction}
    (ok : deserialize params dbNodes extraNodes dcMap = .ok a) : ReadOver dbNodes extraNodes dcMap (.custom (.halves a)) := by
  obtain ⟨_, _, ok⟩ := bind_ok ok
  obtain ⟨_, _, ok⟩ := bind_ok ok
  obtain ⟨group1, first, ok⟩ := bind_ok ok
  obtain ⟨group2, second, ok⟩ := bind_ok ok
  obtain rfl := Except.ok.inj ok
  exact ⟨rfl, rfl, rfl, ⟨group1, rfl, csvPart_ok first⟩, group2, rfl, csvPart_ok second⟩

theorem PartitionMajoritiesRingAction.decoded {a : PartitionMajoritiesRingAction}
    (ok : deserialize params dbNodes extraNodes dcMap = .ok a) : ReadOver dbNodes extraNodes dcMap (.custom (.ring a)) := by
  obtain ⟨_, _, ok⟩ := bind_ok ok
  obtain ⟨_, _, ok⟩ := bind_ok ok
  obtain ⟨ordered, names, ok⟩ := bind_ok ok
  obtain rfl := Except.ok.inj ok
  exact ⟨rfl, rfl, rfl, ordered, rfl, csvPart_ok names⟩

theorem PartitionRandomNodeAction.decoded {a : PartitionRandomNodeAction}
    (ok : deserialize params dbNodes extraNodes dcMap = .ok a) : ReadOver dbNodes extraNodes dcMap (.custom (.node a)) := by
  obtain ⟨_, _, ok⟩ := bind_ok ok
  obtain ⟨_, _, ok⟩ := bind_ok ok
  obtain rfl := Except.ok.inj ok
  exact ⟨rfl, rfl, rfl, fun node set => optionalPart_some set⟩

theorem PartitionRandomSubnetAction.decoded {a : PartitionRandomSubnetAction}
    (ok : deserialize params dbNodes extraNodes dcMap = .ok a) : ReadOver dbNodes extraNodes dcMap (.custom (.subnet a)) := by
  obtain ⟨_, _, ok⟩ := bind_ok ok
  obtain ⟨_, _, ok⟩ := bind_ok ok
  obtain ⟨node, first, ok⟩ := bind_ok ok
  obtain ⟨direction, second, ok⟩ := bind_ok ok
  obtain ⟨subnetType, third, ok⟩ := bind_ok ok
  obtain rfl := Except.ok.inj ok
  refine ⟨rfl, rfl, rfl, ⟨node, rfl, stringPart_ok first⟩, ⟨direction, rfl, stringPart_ok second⟩,
    ⟨subnetType, rfl, stringPart_ok third⟩, _, rfl, csvPart_cases params 4 []⟩

theorem PartitionRandomDcAction.decoded {a : PartitionRandomDcAction}
    (ok : deserialize params dbNodes extraNodes dcMap = .ok a) : ReadOver dbNodes extraNodes dcMap (.custom (.dc a)) := by
  obtain ⟨_, _, ok⟩ := bind_ok ok
  obtain ⟨_, _, ok⟩ := bind_ok ok
  obtain rfl := Except.ok.inj ok
  exact ⟨rfl, rfl, rfl, fun dcName set => optionalPart_some set⟩

theorem BaseFreezeAction.rangePart_nonneg {parts : List (List Char)} {i : Nat} {range : Option (Int × Int)}
    (ok : rangePart parts i = .ok range) {default : Int × Int} (nonneg : 0 ≤ default.1 ∧ 0 ≤ default.2) :
    0 ≤ (range.getD default).1 ∧ 0 ≤ (range.getD default).2 := by
  unfold rangePart at ok
  split at ok
  · obtain ⟨r, read, rfl⟩ := map_ok ok
    exact deserializeRange_nonneg read
  · obtain rfl := Except.ok.inj ok
    exact nonneg

theorem BaseFreezeAction.decoded {a : BaseFreezeAction}
    (ok : deserialize (paramParts params) dbNodes extraNodes dcMap = .ok a) :
    a.Preset ∧ a.dbNodes = dbNodes ∧ a.extraNodes = extraNodes ∧ a.dcMap = dcMap := by
  obtain ⟨_, _, ok⟩ := bind_ok ok
  obtain ⟨_, _, ok⟩ := bind_ok ok
  obtain ⟨duration, first, ok⟩ := bind_ok ok
  obtain ⟨pause, second, ok⟩ := bind_ok ok
  obtain rfl := Except.ok.inj ok
  have names : CsvToken (csvPart (paramParts params) 2 ["postgres"]) := by
    rcases csvPart_cases params 2 ["postgres"] with default | token
    · rw [default]
      unfold CsvToken Token
      decide
    · exact token
  refine ⟨⟨?_, ?_, ?_⟩, rfl, rfl, rfl⟩
  · show CsvToken (processesOr (some (csvPart (paramParts params) 2 ["postgres"])))
    rw [processesOr_some names.ne_nil]
    exact names
  · exact rangePart_nonneg first (by decide)
  · exact rangePart_nonneg second (by decide)

theorem FreezeProcessesAction.decoded {a : FreezeProcessesAction}
    (ok : deserialize params dbNodes extraNodes dcMap = .ok a) : ReadOver dbNodes extraNodes dcMap (.custom (.freeze a)) := by
  obtain ⟨base, read, ok⟩ := bind_ok ok
  obtain rfl := Except.ok.inj ok
  obtain ⟨preset, db, extra, dc⟩ := BaseFreezeAction.decoded read
  exact ⟨db, extra, dc, preset, fun node set => optionalPart_some set⟩

theorem FreezeProcessesGroupAction.decoded {a : FreezeProcessesGroupAction}
    (ok : deserialize params dbNodes extraNodes dcMap = .ok a) :
    ReadOver dbNodes extraNodes dcMap (.custom (.freezeGroup a)) := by
  obtain ⟨base, read, ok⟩ := bind_ok ok
  obtain rfl := Except.ok.inj ok
  obtain ⟨preset, db, extra, dc⟩ := BaseFreezeAction.decoded read
  exact ⟨db, extra, dc, preset, fun group set => optionalPart_some set⟩

/-- A decoder makes an object of its class, with parameters that can stand in a line. -/
theorem deserialize_builtin {cls : ActionClass Builtin Cluster} (member : cls ∈ builtinClasses)
    {obj : ActionObj Builtin} (ok : cls.deserialize params dbNodes extraNodes dcMap = .ok obj) :
    builtinOf obj = cls ∧ ReadOver dbNodes extraNodes dcMap obj := by
  simp only [builtinClasses, List.mem_cons, List.not_mem_nil, or_false] at member
  rcases member with rfl | rfl | rfl | rfl | rfl | rfl | rfl | rfl | rfl <;> obtain ⟨a, read, rfl⟩ := map_ok ok
  · exact ⟨rfl, WaitAction.decoded read⟩
  · exact ⟨rfl, KillProcessAction.decoded read⟩
  · exact ⟨rfl, PartitionRandomHalvesAction.decoded read⟩
  · exact ⟨rfl, PartitionMajoritiesRingAction.decoded read⟩
  · exact ⟨rfl, PartitionRandomNodeAction.decoded read⟩
  · exact ⟨rfl, PartitionRandomSubnetAction.decoded read⟩
  · exact ⟨rfl, PartitionRandomDcAction.decoded read⟩
  · exact ⟨rfl, FreezeProcessesAction.decoded read⟩
  · exact ⟨rfl, FreezeProcessesGroupAction.decoded read⟩

end Decode

end FaultStorm
