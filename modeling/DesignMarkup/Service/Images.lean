import DesignMarkup.Service.Client
import DesignMarkup.Style.Declaration

/-!
# Image addresses

The images that a design uses are exported by one request for all their nodes. What
comes back maps nodes to addresses; nodes without one are reported.
-/

namespace DesignMarkup.ImageUse

/-- The nodes of image uses as texts, which they have to be. -/
def nodeTexts (uses : List ImageUse) : Except Fault (List String) :=
  uses.mapM fun use =>
    match use.nodeId with
    | .text s => .ok s
    | _ => .error .wrongKind

/-- The texts without repetitions, in order of first occurrence. -/
def distinct (ids : List String) : List String :=
  ids.foldl (fun seen id => if seen.contains id then seen else seen ++ [id]) []

/-- The members of an export that have an address. -/
def addresses (exported : Members) : Members := exported.filter (·.2.isPresent)

def unaddressed (ids : List String) (urls : Members) : List String :=
  ids.filter fun id => (urls.lookup id).isNone

def missingReport (missing : List String) : String :=
  "No export URL for " ++ (Number.whole missing.length).plain ++ " image node(s): "
    ++ ", ".intercalate missing

/-- The addresses of the images used, by node. -/
def resolve (c : Client) (fileKey : Value) (uses : List ImageUse) (format scale : Value) :
    Session Members := do
  if uses.isEmpty then pure []
  else do
    let ids := distinct (← Session.data (nodeTexts uses))
    let response ← c.images fileKey (.list (ids.map .text)) format scale
    let answer ← Session.data response.members?
    let exported := Members.get answer "images"
    let urls ← if exported.isPresent then Session.data exported.members? else pure []
    let urls := addresses urls
    let missing := unaddressed ids urls
    if missing.isEmpty then pure urls
    else do
      Session.report .warning (.ok (missingReport missing))
      pure urls

end DesignMarkup.ImageUse
