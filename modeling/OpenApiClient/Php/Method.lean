import OpenApiClient.Library.Basic
import OpenApiClient.Php.Comment
import OpenApiClient.Php.Expression
import OpenApiClient.Php.RequestPath
import OpenApiClient.Php.Status

/-!
# Methods in PHP

The method of an operation: it collects its parameters, sends the request, checks the status
of the response and builds what the response is turned into.  Files are lists of lines; a
line that holds an expression may go on over several lines of text.
-/

namespace OpenApiClient.Php

open Text

/-- The text of lines. -/
def ofLines (lines : List String) : String := join "" (lines.map (· ++ "\n"))

/-- The documentation of a parameter of a method. -/
def parameterLine (template : String) (p : Parameter) : Except Fault String := do
  let type ← parameterDocType p
  let remark ← parameterRemark template p.description
  return "     * @param " ++ type ++ " $" ++ p.variableName ++ remark

/-- The documented return type. -/
def returnLine (r : Route) : String :=
  match r.expression with
  | some _ =>
    "     * @return " ++ (r.returnType.getD "None") ++ (if r.isArrayResponse then "[]" else "")
  | none => "     * @return ResponseInterface"

/-- Stores a parameter under its name, an optional one only if it is there. -/
def storeLines (target : String) (p : Parameter) : List String :=
  let store := target ++ "[" ++ quote p.name ++ "] = " ++ parameterValue p ++ ";"
  if p.required then ["        " ++ store]
  else
    ["        if (!is_null(" ++ parameterValue p ++ ")) \x7b", "            " ++ store,
      "        \x7d"]

/-- How the body is sent, depending on its media type. -/
def bodyLines (requestType : Option String) : List String :=
  let type := (requestType.getD "").toList
  if occursIn "form-urlencoded".toList type then
    ["            $requestOptions['form_params'] = $bodyParameters;"]
  else if occursIn "multipart".toList type then
    ["            $requestOptions['multipart'] = array_map(function ($name, $contents) \x7b",
     "                return ['name' => $name, 'contents' => $contents];",
     "            \x7d, array_keys($bodyParameters), $bodyParameters);"]
  else ["            $requestOptions['json'] = $bodyParameters;"]

/-- Reads the body of the response. -/
def readBody : String := "$responseBody = json_decode((string) $response->getBody(), true);"

/-- What happens to a response of an unexpected status. -/
def failureLines (defaultExpression : Option Expression) : List String :=
  match defaultExpression with
  | some e =>
    ["            " ++ readBody,
     "            $errorResponse = " ++ expression 3 e ++ ";",
     "",
     "            throw new UnexpectedResponseException($response->getStatusCode(), " ++
       "$response, $errorResponse);"]
  | none =>
    ["            throw new UnexpectedResponseException($response->getStatusCode(), $response);"]

/-- What a method returns. -/
def resultLines (e : Option Expression) : List String :=
  match e with
  | some e =>
    ["", "        " ++ readBody, "", "        return " ++ expression 2 e ++ ";"]
  | none => ["", "        return $response;"]

/-- The statements of a method. -/
def statementLines (r : Route) (unexpected : String) : List String :=
  let o := r.operation
  ["        $routePath = " ++ requestPath r.pathParameters o.path ++ ";", "",
   "        $queryParameters = [];"] ++
  r.queryParameters.flatMap (fun (_, p) => storeLines "$queryParameters" p) ++
  ["", "        $bodyParameters = [];"] ++
  r.bodyParameters.flatMap (fun (_, p) => storeLines "$bodyParameters" p) ++
  ["", "        $requestOptions = ['http_errors' => false];",
   "        if (!empty($queryParameters)) \x7b",
   "            $requestOptions['query'] = $queryParameters;",
   "        \x7d",
   "        if (!empty($bodyParameters)) \x7b"] ++ bodyLines r.requestType ++
  ["        \x7d", "",
   "        $response = $this->apiClient->request(" ++ quote o.method.name ++
     ", $routePath, $requestOptions);", "",
   "        if (" ++ unexpected ++ ") \x7b"] ++ failureLines r.defaultExpression ++
  ["        \x7d"] ++ resultLines r.expression

/-- The method of an operation; faults are reported under the name of a template. -/
def methodLines (template : String) (r : Route) : Except Fault (List String) := do
  let o := r.operation
  let documented ← r.methodParameters.mapM (parameterLine template)
  let declared ← r.methodParameters.mapM parameterDeclaration
  let unexpected ← unexpectedStatus r.expectedStatus
  return ["    /**"] ++ summaryLines o.summary ++ descriptionLines o.description ++
    ["     * Operation: " ++ o.method.name ++ " " ++ o.path, "     *"] ++ documented ++
    [returnLine r, "     * @throws UnexpectedResponseException"] ++
    (if o.deprecated then ["     * @deprecated"] else []) ++
    ["     */",
     "    public function " ++ o.operationId ++ "(" ++ join ", " declared ++ ")",
     "    \x7b"] ++ statementLines r unexpected ++ ["    \x7d"]

/-- The methods of a class, each with an empty line before it. -/
def methodsLines (template : String) (routes : List Route) : Except Fault (List String) :=
  List.flatten <$> routes.mapM fun r => ("" :: ·) <$> methodLines template r

end OpenApiClient.Php
