import DesignMarkup.Conversion
import DesignMarkup.Depth
import DesignMarkup.Link.Share
import DesignMarkup.Page
import DesignMarkup.Service.Images

/-!
# Import

From a share link to a converted design: the link is read, the node it names is fetched,
its depth is checked, it is converted, and the images it uses are given their addresses.
Where the addresses cannot be had the design is delivered without them.
-/

namespace DesignMarkup

structure Imported where
  converted : Converted
  fileName : Value
  nodeId : Value
  nodeName : Value

namespace Imported

/-! ## Finding the node -/

abbrev Target := Value × Value

/-- The kinds of nodes that are taken from a page when no node is named. -/
def isTopLevel (kind : Value) : Bool := kind.isText "FRAME" || kind.isText "COMPONENT"

def firstTopLevel : List Value → Except Failure Value
  | [] => .error (.notFound .frame)
  | v :: rest => do
    let ms ← orFail v.members?
    if isTopLevel (Members.get ms "type") then pure v else firstTopLevel rest

def firstPage (pages : Value) : Except Fault Value :=
  match pages with
  | .list (page :: _) => .ok page
  -- The first of a text is a text, which has no members, and an object has no first member.
  | .text _ => .error .noSuchPart
  | .object _ => .error .missingMember
  | _ => .error .wrongKind

/-- The node to convert when none is named: the first on the first page. -/
def targetOfFile (response : Value) : Except Failure Target := do
  let ms ← orFail response.members?
  let document ← orFail (Members.getOr ms "document" (.object [])).members?
  let pages := Members.getOr document "children" (.list [])
  if !pages.isPresent then .error (.notFound .page)
  else do
    let page ← orFail (do (← firstPage pages).members?)
    let candidates ← orFail (Members.getOr page "children" (.list [])).items?
    let node ← firstTopLevel candidates
    pure (node, Members.getOr ms "name" (.text ""))

def documentOf (entry : Value) : Except Fault Value :=
  match entry with
  | .object ms =>
    match ms.lookup "document" with
    | some v => .ok v
    | none => .error .missingMember
  | _ => .error .wrongKind

def targetOfNodes (response : Value) (nodeId : String) : Except Failure Target := do
  let ms ← orFail response.members?
  let nodes := Members.get ms "nodes"
  let entries ← if nodes.isPresent then orFail nodes.members? else pure []
  let entry := Members.get entries nodeId
  if !entry.isPresent then .error (.notFound (.node nodeId))
  else do
    let document ← orFail (documentOf entry)
    pure (document, Members.getOr ms "name" (.text ""))

def fetchTarget (c : Client) (link : ShareLink) : Session Target := do
  match link.nodeId with
  | some id => do
    let response ← c.fileNodes (.text link.fileKey) (.list [.text id])
    Session.check (targetOfNodes response id)
  | none => do
    let response ← c.file (.text link.fileKey) (.whole 2)
    Session.check (targetOfFile response)

/-! ## Images -/

/-- The style sheet with the rules for images behind it. -/
def cssWithImages (css extra : String) : String :=
  if extra.isEmpty then css else if css.isEmpty then extra else css ++ "\n\n" ++ extra

/-- The addresses of the images used; none, and a report, when the service fails. -/
def tryResolve (c : Client) (fileKey : String) (uses : List ImageUse) : Session (Option Members) :=
  tryCatch (do pure (some (← ImageUse.resolve c (.text fileKey) uses Client.defaultFormat Client.defaultScale)))
    fun f =>
      if f.isReported then do
        Session.report .error (.ok ("Failed to fetch images: " ++ f.message))
        pure none
      else Session.fail f

/-- The converted design with addresses for its images, where they can be had. -/
def withImages (c : Client) (fileKey : String) (converted : Converted) : Session Converted := do
  if converted.images.isEmpty then pure converted
  else do
    match ← tryResolve c fileKey converted.images with
    | none => pure converted
    | some urls => do
      let extra ← Session.data (Stylesheet.printImages converted.images urls)
      pure { converted with css := cssWithImages converted.css extra }

/-! ## The whole -/

def ofUrl (c : Client) (url : Value) (options : Except Fault Options) : Session Imported := do
  match ← Session.data (ShareLink.ofValue? url) with
  | none => Session.fail .noShareLink
  | some link => do
    let (node, fileName) ← fetchTarget c link
    Session.check (Value.shape.ensure node c.settings.maxTreeDepth)
    -- Options that are none are noticed here and not before the design was fetched.
    let options ← Session.data options
    let converted ← Session.data (convertValue node options)
    let converted ← withImages c link.fileKey converted
    let ms ← Session.data node.members?
    pure { converted := converted
           fileName := fileName
           nodeId := Members.getOr ms "id" (.text "")
           nodeName := Members.getOr ms "name" (.text "") }

def snippet (i : Imported) : Except Fault String :=
  match i.fileName with
  | .text name => .ok (Page.snippet i.converted.html i.converted.css name)
  | _ => .error .wrongKind

end Imported

end DesignMarkup
