import PotExtract.Scanner

/-! The choice of a scanner for a file: the scanner that the longest of the extensions its name ends
in is mapped to. -/

namespace PotExtract

/-- Why a setting of the registry is refused. -/
inductive RegistryError where
  | unknownScanner (name extension : String)
  | unknownEngine (name engine : String)
  | noEngines (name : String)
  deriving DecidableEq, Repr

/-- The error as it is shown to the user. -/
def RegistryError.message : RegistryError → String
  | .unknownScanner name extension =>
    s!"Unknown extractor '{name}' configured for extension '{extension}'"
  | .unknownEngine name engine => s!"Unknown expression engine '{engine}' for extractor '{name}'"
  | .noEngines name => s!"Extractor '{name}' does not support an expression engine setting"

/-- The scanners, and the names of those that extensions are mapped to. -/
structure Registry where
  scanners : List Scanner
  extensions : List (String × String)
  deriving DecidableEq, Repr

namespace Registry

/-- No scanners. -/
def empty : Registry := ⟨[], []⟩

/-- All scanners with the extensions they read by default. -/
def defaults : Registry :=
  ⟨Scanner.all, Scanner.all.flatMap fun s => s.extensions.map (·, s.name)⟩

/-- The scanner with a name. -/
def byName? (r : Registry) (name : String) : Option Scanner :=
  r.scanners.find? (·.name == name)

/-- An extension with its leading dot. -/
def dotted (extension : String) : String :=
  if extension.toList.head? = some '.' then extension else "." ++ extension

/-- Maps an extension to a scanner, in place of the one it was mapped to. Answers with what is left
of the registry, and with the error if this is refused. -/
def tryMap (r : Registry) (extension name : String) : Registry × Option RegistryError :=
  match r.byName? name with
  | none => (r, some (.unknownScanner name extension))
  | some _ =>
    let extension := dotted extension
    ({ r with
      extensions := (extension, name) :: r.extensions.filter fun (other, _) => other != extension },
      none)

/-- Changes the default engine of a scanner. Answers like `tryMap`. -/
def tryEngine (r : Registry) (name engine : String) : Registry × Option RegistryError :=
  match Tales.Engine.ofName? engine, r.byName? name with
  | none, _ => (r, some (.unknownEngine name engine))
  | some _, none => (r, some (.unknownScanner name ""))
  | some engine, some scanner =>
    match scanner.withEngine? engine with
    | none => (r, some (.noEngines name))
    | some changed =>
      ({ r with scanners := r.scanners.map fun s => if s.name == name then changed else s }, none)

/-- The registry that a change leaves, or why it is refused. -/
def unlessRefused : Registry × Option RegistryError → Except RegistryError Registry
  | (r, none) => .ok r
  | (_, some e) => .error e

/-- The registry with an extension mapped to a scanner. -/
def mapExtension (r : Registry) (extension name : String) : Except RegistryError Registry :=
  unlessRefused (r.tryMap extension name)

/-- The registry with another default engine of a scanner. -/
def setEngine (r : Registry) (name engine : String) : Except RegistryError Registry :=
  unlessRefused (r.tryEngine name engine)

/-- Whether the name of a file ends in an extension. -/
def endsIn (file extension : String) : Bool :=
  extension.toList.isSuffixOf file.toList

/-- The longer of two extensions. -/
def longer (a b : String × String) : String × String :=
  if a.1.length < b.1.length then b else a

/-- The longest extension that the name of a file ends in, and the scanner it is mapped to. -/
def match? (r : Registry) (file : String) : Option (String × String) :=
  match r.extensions.filter fun (extension, _) => endsIn file extension with
  | [] => none
  | first :: others => some (others.foldl longer first)

/-- The scanner for a file. -/
def forFile? (r : Registry) (file : String) : Option Scanner :=
  (r.match? file).bind fun (_, name) => r.byName? name

/-- Whether there is a scanner for a file. -/
def supports (r : Registry) (file : String) : Bool :=
  (r.forFile? file).isSome

end Registry

end PotExtract
