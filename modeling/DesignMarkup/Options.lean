import DesignMarkup.Value.Basic

/-!
# Options

What a conversion is asked to do. Options come as an object whose members go by either
of two spellings; a member of another name says nothing.
-/

namespace DesignMarkup

/-- What a conversion is asked to do. Variants and utility classes are accepted and have
no effect yet. -/
structure Options where
  preserveAutoLayout : Bool
  convertEffects : Bool
  importVariants : Bool
  useFlexbox : Bool
  generateTailwind : Bool
deriving DecidableEq, Repr

namespace Options

def standard : Options where
  preserveAutoLayout := true
  convertEffects := true
  importVariants := true
  useFlexbox := true
  generateTailwind := false

inductive Field
  | preserveAutoLayout
  | convertEffects
  | importVariants
  | useFlexbox
  | generateTailwind
deriving DecidableEq, Repr

def spellings : List (String × Field) :=
  [("preserve_auto_layout", .preserveAutoLayout), ("preserveAutoLayout", .preserveAutoLayout),
   ("convert_effects", .convertEffects), ("convertEffects", .convertEffects),
   ("import_variants", .importVariants), ("importVariants", .importVariants),
   ("use_flexbox", .useFlexbox), ("useFlexbox", .useFlexbox),
   ("generate_tailwind", .generateTailwind), ("generateTailwind", .generateTailwind)]

def get (o : Options) : Field → Bool
  | .preserveAutoLayout => o.preserveAutoLayout
  | .convertEffects => o.convertEffects
  | .importVariants => o.importVariants
  | .useFlexbox => o.useFlexbox
  | .generateTailwind => o.generateTailwind

def set (o : Options) (b : Bool) : Field → Options
  | .preserveAutoLayout => { o with preserveAutoLayout := b }
  | .convertEffects => { o with convertEffects := b }
  | .importVariants => { o with importVariants := b }
  | .useFlexbox => { o with useFlexbox := b }
  | .generateTailwind => { o with generateTailwind := b }

/-- Takes a member into account: an option is on when the member's value is present. -/
def setMember (o : Options) (m : String × Value) : Options :=
  match spellings.lookup m.1 with
  | some field => o.set m.2.isPresent field
  | none => o

/-- The options that the members of an object ask for, later members winning. -/
def ofMembers (ms : Members) : Options := ms.foldl setMember standard

/-- The options that a value asks for; what is not present asks for nothing. -/
def ofValue (v : Value) : Except Fault Options :=
  if v.isPresent then v.members?.map ofMembers else .ok standard

end Options

end DesignMarkup
