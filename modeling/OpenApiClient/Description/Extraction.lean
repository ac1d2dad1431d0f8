import OpenApiClient.Description.Basic
import OpenApiClient.Fields
import OpenApiClient.Name
import OpenApiClient.Pointer

/-!
# The description in a document

Reads information, servers, operations and security schemes off a document.  Operations come
in the order of the document, one for each method of each path.  A path may declare
parameters for all its operations; one of the operation's own parameters with the same name
and location takes the place of such a parameter.
-/

namespace OpenApiClient

namespace Information

/-- Reads the general information. -/
def ofRoot (root : Value) : Except Fault Information := do
  let info := (root.get "info").orElse (.map 0 [])
  let title ← info.fieldOr "title" (.str "Untitled API")
  let version ← info.fieldOr "version" (.str "0.0.0")
  let description ← info.field "description"
  Fields.fill .information [Fields.optionalText "description" description]
    ⟨title.text, version.text, Fields.textOf? description⟩

end Information

namespace Server

/-- Reads one server. -/
def ofValue (v : Value) : Except Fault Server :=
  let url := (v.get? "url").getD (.str "/")
  let description := v.get "description"
  Fields.fill .server [Fields.text "url" url, Fields.optionalText "description" description]
    ⟨Fields.textOf url, Fields.textOf? description⟩

/-- Reads the servers; what is no mapping is passed over. -/
def listOfRoot (root : Value) : Except Fault (List Server) := do
  let servers ← (root.get "servers").membersOrNone
  (servers.filter (·.isMap)).mapM ofValue

end Server

namespace Parameters

/-- The name and location by which a parameter is told from others. -/
def identity (doc : Document) (node : Value) : Except Fault Value := do
  let settled ← doc.settle node
  let name ← settled.fieldOr "name" (.str "")
  let place ← settled.fieldOr "in" (.str "")
  let both := Value.pair name place
  if both.isKey then return both else throw (.refused .notAKey)

/-- The parameters of a path that no parameter of the operation replaces, and then those of
the operation. -/
def merge (doc : Document) (ofPath ofOperation : Value) : Except Fault (List Value) := do
  let own ← ofOperation.membersOrNone
  let ownIdentities ← own.mapM (identity doc)
  let inherited ← ofPath.membersOrNone
  let kept ← inherited.filterM fun p => do
    let i ← identity doc p
    return !ownIdentities.any (·.same i)
  return kept ++ own

end Parameters

namespace Operation

/-- Notes with a failure the operation during which it arose.  A path without a text cannot be
noted. -/
def blame (path : Scalar) (method : Method) (fault : Fault) : Fault :=
  match fault with
  | .failed _ =>
    if path.hasText then fault.during (method.name ++ " " ++ path.text) else .refused .notANumber
  | fault => fault

/-- Reads one operation from its path, its method, the parameters of the path, and its node. -/
def ofNode (doc : Document) (path : Scalar) (method : Method) (ofPath node : Value) :
    Except Fault Operation := do
  let parameters ←
    match Parameters.merge doc ofPath (node.get "parameters") with
    | .ok ps => pure ps
    | .error fault => throw (blame path method fault)
  let operationId ←
    match (node.get "operationId").filled?, path with
    | some v, _ => pure v
    | none, .str p => pure (.str (Name.ofOperation method.key p))
    | none, _ => throw (.refused .notText)
  let summary := node.get "summary"
  let description := node.get "description"
  let tags ← (node.get "tags").membersOrNone
  let requestBody := node.get "requestBody"
  let responses ← (node.get "responses").entriesOrNone
  let responses := Value.ofPairs (responses.map fun (code, v) => (.str code.text, v))
  Fields.fill .operation
    ([Fields.text "path" (.scalar path), Fields.text "operation_id" operationId,
      Fields.optionalText "summary" summary, Fields.optionalText "description" description] ++
      (Fields.mappings "parameters" parameters ++
        Fields.optionalMapping "request_body" requestBody).map some)
    { path := Fields.textOf (.scalar path)
      method
      operationId := Fields.textOf operationId
      summary := Fields.textOf? summary
      description := Fields.textOf? description
      tags := tags.map Value.text
      parameters
      requestBody := if requestBody.isNull then none else some requestBody
      responses := responses.map fun (code, v) => (code.text, v)
      deprecated := (node.get "deprecated").isFilled }

/-- Reads the operations of one path. -/
def listOfPath (doc : Document) (path : Scalar) (item : Value) : Except Fault (List Operation) :=
  match item with
  | .map _ es => do
    let read ← es.mapM fun (key, node) =>
      match key, node with
      | .str k, .map _ _ =>
        match Method.ofKey? k with
        | some m => (ofNode doc path m (item.get "parameters") node).map some
        | none => pure none
      | _, _ => pure none
    return read.filterMap id
  | _ => .ok []

/-- Gives every operation an origin of its own: its place among them. -/
def numbered (operations : List Operation) : List Operation :=
  operations.zipIdx.map fun (o, origin) => { o with origin }

/-- Reads all operations. -/
def listOfRoot (doc : Document) : Except Fault (List Operation) := do
  let paths ← (doc.root.get "paths").entriesOrNone
  let read ← paths.mapM fun (path, item) => listOfPath doc path item
  return numbered read.flatten

end Operation

namespace SecurityScheme

/-- Reads one security scheme. -/
def ofValue (name : Scalar) (v : Value) : Except Fault (String × SecurityScheme) :=
  let type := (v.get? "type").getD (.str "")
  let description := v.get "description"
  let scheme := v.get "scheme"
  let bearerFormat := v.get "bearerFormat"
  Fields.fill .securityScheme
    [Fields.text "name" (.scalar name), Fields.optionalText "description" description,
      Fields.optionalText "scheme" scheme, Fields.optionalText "bearer_format" bearerFormat]
    (Fields.textOf (.scalar name), ⟨Fields.textOf (.scalar name), type.text,
      Fields.textOf? description, Fields.textOf? scheme, Fields.textOf? bearerFormat⟩)

/-- Reads the security schemes, following references; what is no mapping is passed over. -/
def listOfRoot (doc : Document) : Except Fault (List (String × SecurityScheme)) := do
  let components := (doc.root.get "components").orElse (.map 0 [])
  let schemes ← (← components.field "securitySchemes").entriesOrNone
  let read ← schemes.mapM fun (name, node) => do
    let settled ← doc.settle node
    if settled.isMap then (ofValue name settled).map some else return none
  return read.filterMap id

end SecurityScheme

/-- Reads the description in a document whose version is known. -/
def Description.ofDocument (doc : Document) (version : String) : Except Fault Description := do
  let information ← Information.ofRoot doc.root
  let servers ← Server.listOfRoot doc.root
  let operations ← Operation.listOfRoot doc
  let securitySchemes ← SecurityScheme.listOfRoot doc
  Fields.fill .description ((Fields.mapping "document" [] doc.root).map some)
    ⟨information, servers, operations, securitySchemes, version, doc⟩

end OpenApiClient
