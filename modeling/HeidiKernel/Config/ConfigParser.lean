import HeidiKernel.Data.Bytes
import HeidiKernel.Data.Loop
import Mathlib.Data.List.Induction

namespace HeidiKernel

/-! The command line of the kernel. -/

inductive ErrorCode
  | success
  | invalidArgument
  | configNotFound
  | configParseError
  | shutdownRequested
  | eventLoopError
  | unknown
  deriving DecidableEq, Repr

structure Error where
  code : ErrorCode
  message : Bytes
  deriving DecidableEq, Repr

structure Config where
  configPath : Bytes := []
  logLevel : Bytes := []
  socketPath : Bytes := []
  showVersion : Bool := false
  showHelp : Bool := false
  deriving DecidableEq, Repr

namespace ConfigParser

def dash : UInt8 := 0x2d

def startsWithDash (arg : Bytes) : Bool := arg.head? = some dash

/-- The last branch of the loop: options nobody knows are ignored. -/
def passOver (arg : Bytes) (config : Config) : Except Error (Config × Bool) :=
  if startsWithDash arg then
    pure (config, false)
  else
    throw ⟨.invalidArgument, bytes "Unknown argument"⟩

/-- What one argument does, and whether it takes the next one with it. -/
def parseArgument (arg : Bytes) (next? : Option Bytes) (config : Config) :
    Except Error (Config × Bool) :=
  if arg = bytes "--help" ∨ arg = bytes "-h" then
    pure ({ config with showHelp := true }, false)
  else if arg = bytes "--version" ∨ arg = bytes "-v" then
    pure ({ config with showVersion := true }, false)
  else
    match next? with
    | some value =>
        if arg = bytes "--log-level" then
          pure ({ config with logLevel := value }, true)
        else if arg = bytes "--config" then
          pure ({ config with configPath := value }, true)
        else if arg = bytes "--socket-path" then
          pure ({ config with socketPath := value }, true)
        else
          passOver arg config
    | none => passOver arg config

def parseFrom : List Bytes → Bool → Config → Except Error Config
  | [], _, config => pure config
  | _ :: args, true, config => parseFrom args false config
  | arg :: args, false, config => do
      let (config, taken) ← parseArgument arg args.head? config
      parseFrom args taken config

/-- The arguments behind the name of the program, and `HEIDI_KERNEL_SOCK`. -/
def parse (args : List Bytes) (envSock : Option Bytes) : Except Error Config :=
  parseFrom args false
    { logLevel := bytes "info", socketPath := envSock.getD [] }

/-! The command lines that are accepted are rows of items. -/

def valueNames : List Bytes :=
  [bytes "--log-level", bytes "--config", bytes "--socket-path"]

def switchNames : List Bytes :=
  [bytes "--help", bytes "-h", bytes "--version", bytes "-v"]

/-- A part of a command line that is read as a whole. Anything else with a dash
is passed over. -/
inductive Item
  | help (long : Bool)
  | version (long : Bool)
  | logLevel (value : Bytes)
  | configPath (value : Bytes)
  | socketPath (value : Bytes)
  | ignored (arg : Bytes) (hdash : startsWithDash arg = true)
      (hswitch : arg ∉ switchNames) (hvalue : arg ∉ valueNames)

def Item.render : Item → List Bytes
  | help long => [if long then bytes "--help" else bytes "-h"]
  | version long => [if long then bytes "--version" else bytes "-v"]
  | logLevel value => [bytes "--log-level", value]
  | configPath value => [bytes "--config", value]
  | socketPath value => [bytes "--socket-path", value]
  | ignored arg _ _ _ => [arg]

def Item.apply (config : Config) : Item → Config
  | help _ => { config with showHelp := true }
  | version _ => { config with showVersion := true }
  | logLevel value => { config with logLevel := value }
  | configPath value => { config with configPath := value }
  | socketPath value => { config with socketPath := value }
  | ignored .. => config

theorem parseFrom_item (item : Item) (args : List Bytes) (config : Config) :
    parseFrom (item.render ++ args) false config =
      parseFrom args false (item.apply config) := by
  cases item with
  | help long =>
      cases long <;> simp [Item.render, Item.apply, parseFrom, parseArgument]
  | version long =>
      cases long <;> simp [Item.render, Item.apply, parseFrom, parseArgument]
  | logLevel value | configPath value | socketPath value =>
      simp [Item.render, Item.apply, parseFrom, parseArgument]
  | ignored arg hdash hswitch hvalue =>
      simp only [switchNames, valueNames, List.mem_cons, List.not_mem_nil,
        or_false, not_or] at hswitch hvalue
      cases args <;>
        simp [Item.render, Item.apply, parseFrom, parseArgument, passOver,
          hswitch, hvalue, hdash]

/-- The end of a command line: nothing, or an option whose value is missing. -/
def Dangling (args : List Bytes) : Prop :=
  args = [] ∨ ∃ name ∈ valueNames, args = [name]

theorem parseFrom_dangling {args : List Bytes} (h : Dangling args)
    (config : Config) : parseFrom args false config = .ok config := by
  rcases h with rfl | ⟨name, hname, rfl⟩
  · rfl
  · have hdash : ∀ name ∈ valueNames, startsWithDash name = true := by
      decide +kernel
    have hswitch : ∀ name ∈ valueNames, name ∉ switchNames := by
      decide +kernel
    have hother := hswitch name hname
    simp only [switchNames, List.mem_cons, List.not_mem_nil, or_false, not_or]
      at hother
    simp [parseFrom, parseArgument, passOver, hother, hdash name hname]

def commandLine (items : List Item) (last : List Bytes) : List Bytes :=
  items.flatMap Item.render ++ last

theorem parseFrom_commandLine (items : List Item) {last : List Bytes}
    (h : Dangling last) (config : Config) :
    parseFrom (commandLine items last) false config =
      .ok (items.foldl Item.apply config) := by
  induction items generalizing config with
  | nil => exact parseFrom_dangling h config
  | cons item items ih =>
      rw [commandLine, List.flatMap_cons, List.append_assoc, parseFrom_item]
      exact ih (item.apply config)

def WellFormed (args : List Bytes) : Prop :=
  ∃ items last, Dangling last ∧ args = commandLine items last

theorem WellFormed.cons {args : List Bytes} (h : WellFormed args)
    (item : Item) : WellFormed (item.render ++ args) := by
  obtain ⟨items, last, hlast, rfl⟩ := h
  refine ⟨item :: items, last, hlast, ?_⟩
  rw [commandLine, commandLine, List.flatMap_cons, List.append_assoc]

/-- How an argument that is not refused is read: as an item of its own, as an
option behind which there is no argument, or as an item with the next one. -/
inductive Read (arg : Bytes) : Option Bytes → Bool → Prop
  | alone {next? : Option Bytes} (item : Item) (hrender : item.render = [arg]) :
      Read arg next? false
  | dangling (hname : arg ∈ valueNames) : Read arg none false
  | paired {value : Bytes} (item : Item)
      (hrender : item.render = [arg, value]) : Read arg (some value) true

theorem dash_of_passOver {arg : Bytes} {config config' : Config} {taken : Bool}
    (h : passOver arg config = .ok (config', taken)) :
    startsWithDash arg = true ∧ taken = false := by
  rw [passOver] at h
  split_ifs at h with hdash
  exact ⟨hdash, (congrArg Prod.snd (Except.ok.inj h)).symm⟩

theorem read_of_parseArgument {arg : Bytes} {next? : Option Bytes}
    {config config' : Config} {taken : Bool}
    (h : parseArgument arg next? config = .ok (config', taken)) :
    Read arg next? taken := by
  unfold parseArgument at h
  rcases em (arg = bytes "--help" ∨ arg = bytes "-h") with hhelp | hhelp
  · rw [if_pos hhelp] at h
    obtain rfl : false = taken := congrArg Prod.snd (Except.ok.inj h)
    rcases hhelp with rfl | rfl
    · exact .alone (.help true) rfl
    · exact .alone (.help false) rfl
  rw [if_neg hhelp] at h
  rcases em (arg = bytes "--version" ∨ arg = bytes "-v") with hversion | hversion
  · rw [if_pos hversion] at h
    obtain rfl : false = taken := congrArg Prod.snd (Except.ok.inj h)
    rcases hversion with rfl | rfl
    · exact .alone (.version true) rfl
    · exact .alone (.version false) rfl
  rw [if_neg hversion] at h
  have hswitch : arg ∉ switchNames := by
    simp only [switchNames, List.mem_cons, List.not_mem_nil, or_false]
    tauto
  cases next? with
  | none =>
      obtain ⟨hdash, rfl⟩ := dash_of_passOver h
      rcases em (arg ∈ valueNames) with hvalue | hvalue
      · exact .dangling hvalue
      · exact .alone (.ignored arg hdash hswitch hvalue) rfl
  | some value =>
      dsimp only at h
      split_ifs at h with hlevel hpath hsocket
      · obtain rfl : true = taken := congrArg Prod.snd (Except.ok.inj h)
        exact .paired (.logLevel value) (by rw [hlevel]; rfl)
      · obtain rfl : true = taken := congrArg Prod.snd (Except.ok.inj h)
        exact .paired (.configPath value) (by rw [hpath]; rfl)
      · obtain rfl : true = taken := congrArg Prod.snd (Except.ok.inj h)
        exact .paired (.socketPath value) (by rw [hsocket]; rfl)
      · obtain ⟨hdash, rfl⟩ := dash_of_passOver h
        have hvalue : arg ∉ valueNames := by
          simp [valueNames, hlevel, hpath, hsocket]
        exact .alone (.ignored arg hdash hswitch hvalue) rfl

theorem wellFormed_nil : WellFormed [] := ⟨[], [], .inl rfl, rfl⟩

theorem wellFormed_of_parseFrom {args : List Bytes} {config result : Config}
    (h : parseFrom args false config = .ok result) : WellFormed args := by
  induction args using List.twoStepInduction generalizing config with
  | nil => exact wellFormed_nil
  | singleton arg =>
      rw [parseFrom, Data.bind_eq_ok] at h
      obtain ⟨⟨config', taken⟩, harg, _⟩ := h
      cases read_of_parseArgument harg with
      | alone item hrender => simpa [hrender] using wellFormed_nil.cons item
      | dangling hname => exact ⟨[], [arg], .inr ⟨arg, hname, rfl⟩, rfl⟩
  | cons_cons arg value args ih ihvalue =>
      rw [parseFrom, Data.bind_eq_ok] at h
      obtain ⟨⟨config', taken⟩, harg, hrest⟩ := h
      cases read_of_parseArgument harg with
      | alone item hrender =>
          simpa [hrender] using (ihvalue value hrest).cons item
      | paired item hrender => simpa [hrender] using (ih hrest).cons item

theorem parse_ok_iff (args : List Bytes) (envSock : Option Bytes) :
    (∃ config, parse args envSock = .ok config) ↔ WellFormed args := by
  constructor
  · rintro ⟨config, h⟩
    exact wellFormed_of_parseFrom h
  · rintro ⟨items, last, hlast, rfl⟩
    exact ⟨_, parseFrom_commandLine items hlast _⟩

end ConfigParser

end HeidiKernel
