import OpenApiClient.Library.Namespace
import OpenApiClient.Php.Method

/-!
# Classes in PHP

The files of a library: the client, the managers, the resources and the exceptions.
-/

namespace OpenApiClient.Php

open Text

/-- The beginning of a file: its namespace, what every file of its kind imports, and what it
imports itself. -/
def headLines (space : String) (always uses : List String) : List String :=
  ["<?php", "", "namespace " ++ space ++ ";", ""] ++
    (always ++ uses).map (fun name => "use " ++ name ++ ";") ++ [""]

/-- The interface of responses. -/
def responseInterface : String := "Psr\\Http\\Message\\ResponseInterface"

/-- The documentation of a class. -/
def titleLines (title : String) (more : List String) : List String :=
  ["/**", " * " ++ title] ++ more ++ [" */"]

/-- A member variable and its documentation. -/
def memberLines (doc : List String) (type name : String) : List String :=
  ["    /**"] ++ doc ++ ["     * @var " ++ type, "     */", "    protected $" ++ name ++ ";"]

/-- The template of the client. -/
def clientTemplate : String := "client.php.j2"

/-- The template of managers. -/
def managerTemplate : String := "manager.php.j2"

/-- The template of resources. -/
def resourceTemplate : String := "resource.php.j2"

/-- The member variable that holds a manager. -/
def managerMember (manager : String) : String := Name.variableName manager ++ "Manager"

/-- The parts of a client that deal with its token. -/
def tokenLines (c : ClientClass) (lines : List String) : List String :=
  if c.usesBearerToken then lines else []

/-- The members and the constructor of a client. -/
def clientStateLines (c : ClientClass) : List String :=
  memberLines ["     * Base URL of the API", "     *"] "string"
      ("apiBaseUrl = " ++ quote c.baseUrl) ++
    [""] ++ memberLines ["     * The HTTP client", "     *"] "ClientInterface" "httpClient" ++
    tokenLines c ("" :: memberLines
      ["     * Bearer token sent in the Authorization header", "     *"]
      "string|null" "bearerToken") ++
    c.managers.flatMap (fun m => "" :: memberLines
      ["     * " ++ m ++ " manager", "     *"] m (managerMember m)) ++
    ["", "    /**", "     * " ++ c.name ++ " constructor.", "     *"] ++
    tokenLines c ["     * @param string|null $bearerToken Bearer token sent with every request"] ++
    ["     * @param ClientInterface|null $httpClient HTTP client (a Guzzle client by default)",
     "     */",
     "    public function __construct(" ++
       (if c.usesBearerToken then "$bearerToken = null, " else "") ++
       "ClientInterface $httpClient = null)",
     "    \x7b"] ++
    tokenLines c ["        $this->bearerToken = $bearerToken;"] ++
    ["        $this->httpClient = $httpClient ?: new HttpClient();"] ++
    c.managers.map (fun m =>
      "        $this->" ++ managerMember m ++ " = new " ++ m ++ "($this);") ++
    ["    \x7d"]

/-- The methods of a client. -/
def clientMethodLines (c : ClientClass) : List String :=
  ["    /**",
   "     * Override the base URL of the API",
   "     *",
   "     * @param string $apiBaseUrl",
   "     * @return $this",
   "     */",
   "    public function setApiBaseUrl($apiBaseUrl)",
   "    \x7b",
   "        $this->apiBaseUrl = $apiBaseUrl;",
   "",
   "        return $this;",
   "    \x7d",
   "",
   "    /**",
   "     * @return string",
   "     */",
   "    public function getApiBaseUrl()",
   "    \x7b",
   "        return $this->apiBaseUrl;",
   "    \x7d"] ++
  tokenLines c
    ["",
     "    /**",
     "     * @param string|null $bearerToken",
     "     * @return $this",
     "     */",
     "    public function setBearerToken($bearerToken)",
     "    \x7b",
     "        $this->bearerToken = $bearerToken;",
     "",
     "        return $this;",
     "    \x7d"] ++
  ["",
   "    /**",
   "     * @return ClientInterface",
   "     */",
   "    public function getHttpClient()",
   "    \x7b",
   "        return $this->httpClient;",
   "    \x7d"] ++
  c.managers.flatMap (fun m =>
    ["",
     "    /**",
     "     * @return " ++ m,
     "     */",
     "    public function get" ++ m ++ "Manager()",
     "    \x7b",
     "        return $this->" ++ managerMember m ++ ";",
     "    \x7d"]) ++
  ["",
   "    /**",
   "     * Send a request to the API",
   "     *",
   "     * @param string $method HTTP method",
   "     * @param string $path Path relative to the API base URL",
   "     * @param array $options Guzzle request options",
   "     * @return ResponseInterface",
   "     */",
   "    public function request($method, $path, array $options = [])",
   "    \x7b",
   "        $headers = isset($options['headers']) ? $options['headers'] : [];",
   "        $headers['Accept'] = 'application/json';"] ++
  tokenLines c
    ["        if (!is_null($this->bearerToken)) \x7b",
     "            $headers['Authorization'] = 'Bearer ' . $this->bearerToken;",
     "        \x7d"] ++
  ["        $options['headers'] = $headers;",
   "",
   "        return $this->httpClient->request($method, rtrim($this->apiBaseUrl, '/') . $path, " ++
     "$options);",
   "    \x7d"]

/-- The file of a client. -/
def clientFile (c : ClientClass) : String :=
  ofLines <|
    headLines c.space
      ["GuzzleHttp\\Client as HttpClient", "GuzzleHttp\\ClientInterface", responseInterface]
      c.uses ++
    titleLines c.title
      [" *", " * " ++ c.information.title ++ " API version " ++ c.information.version] ++
    ["class " ++ c.name, "\x7b"] ++ clientStateLines c ++ [""] ++ clientMethodLines c ++ ["\x7d"]

/-- The beginning of the file of a class that belongs to a client. -/
def classHeadLines (client : ClientClass) (c : GeneratedClass) (declaration : String) :
    List String :=
  headLines c.space [responseInterface] c.uses ++
    titleLines c.title
      [" *", " * Generated from " ++ client.information.title ++ " " ++
        client.information.version ++ "."] ++
    ["class " ++ declaration, "\x7b"] ++
    memberLines ["     * The API client", "     *"] client.name "apiClient"

/-- The file of a manager. -/
def managerFile (client : ClientClass) (c : GeneratedClass) : Except Fault String := do
  let methods ← methodsLines managerTemplate c.routes
  return ofLines <|
    classHeadLines client c c.name ++
    ["", "    /**",
     "     * " ++ c.name ++ " constructor.",
     "     *",
     "     * @param " ++ client.name ++ " $apiClient The API client",
     "     */",
     "    public function __construct(" ++ client.name ++ " $apiClient)",
     "    \x7b",
     "        $this->apiClient = $apiClient;",
     "    \x7d"] ++ methods ++ ["\x7d"]

/-- The documented type of a property, without regard to its being required. -/
def propertyType (p : Property) : String := docType p.type p.format p.items

/-- The documented type of a property; one that is not required may be null. -/
def propertyDocType (p : Property) : String :=
  propertyType p ++ (if p.required then "" else "|null")

/-- The members and the constructor of a resource. -/
def resourceStateLines (client : ClientClass) (c : ResourceClass) : List String :=
  let variableNames := c.properties.map fun p => Name.variableName p.name
  c.properties.flatMap (fun p => "" :: memberLines (descriptionLines p.description)
    (propertyDocType p) (Name.variableName p.name)) ++
  ["", "    /**", "     * " ++ c.name ++ " constructor.", "     *",
   "     * @param " ++ client.name ++ " $apiClient The API client"] ++
  c.properties.map (fun p =>
    "     * @param " ++ propertyType p ++ "|null $" ++ Name.variableName p.name) ++
  ["     */",
   "    public function __construct(" ++ client.name ++ " $apiClient" ++
     join "" (variableNames.map fun v => ", $" ++ v ++ " = null") ++ ")",
   "    \x7b",
   "        $this->apiClient = $apiClient;"] ++
  variableNames.map (fun v => "        $this->" ++ v ++ " = $" ++ v ++ ";") ++
  ["    \x7d"]

/-- The methods by which a resource is read and written. -/
def resourceAccessLines (properties : List Property) : List String :=
  properties.flatMap (fun p =>
    ["",
     "    /**",
     "     * @return " ++ propertyDocType p,
     "     */",
     "    public function " ++ getterOf p.name ++ "()",
     "    \x7b",
     "        return " ++ memberOf p.name ++ ";",
     "    \x7d"]) ++
  ["",
   "    /**",
   "     * Field values keyed by their API names, for JSON request bodies.",
   "     *",
   "     * @return array",
   "     */",
   "    public function jsonSerialize()",
   "    \x7b",
   "        return ["] ++
  properties.map (fun p =>
    "            " ++ quote p.name ++ " => " ++ memberOf p.name ++ ",") ++
  ["        ];",
   "    \x7d"]

/-- The file of a resource. -/
def resourceFile (client : ClientClass) (c : ResourceClass) : Except Fault String := do
  let methods ← methodsLines resourceTemplate c.routes
  return ofLines <|
    classHeadLines client c.toGeneratedClass (c.name ++ " implements \\JsonSerializable") ++
    resourceStateLines client c ++ resourceAccessLines c.properties ++ methods ++ ["\x7d"]

/-- The file of the exception that all others extend. -/
def apiExceptionFile (e : ExceptionClass) : String :=
  ofLines <|
    ["<?php", "", "namespace " ++ e.space ++ ";", ""] ++ titleLines e.title [] ++
    ["class " ++ e.name ++ " extends \\Exception", "\x7b", "\x7d"]

/-- The file of the exception for unexpected responses. -/
def unexpectedResponseFile (e : ExceptionClass) : String :=
  ofLines <|
    headLines e.space [responseInterface] [] ++ titleLines e.title [] ++
    ["class " ++ e.name ++ " extends ApiException", "\x7b"] ++
    memberLines ["     * The received response", "     *"] "ResponseInterface" "response" ++
    [""] ++
    memberLines ["     * The decoded error body, when the API documents one", "     *"]
      "mixed" "errorResponse" ++
    ["",
     "    /**",
     "     * " ++ e.name ++ " constructor.",
     "     *",
     "     * @param int $statusCode Received status code",
     "     * @param ResponseInterface $response The received response",
     "     * @param mixed $errorResponse The decoded error body",
     "     */",
     "    public function __construct($statusCode, ResponseInterface $response, " ++
       "$errorResponse = null)",
     "    \x7b",
     "        parent::__construct('Unexpected response status code: ' . $statusCode, " ++
       "$statusCode);",
     "        $this->response = $response;",
     "        $this->errorResponse = $errorResponse;",
     "    \x7d",
     "",
     "    /**",
     "     * @return ResponseInterface",
     "     */",
     "    public function getResponse()",
     "    \x7b",
     "        return $this->response;",
     "    \x7d",
     "",
     "    /**",
     "     * @return mixed",
     "     */",
     "    public function getErrorResponse()",
     "    \x7b",
     "        return $this->errorResponse;",
     "    \x7d",
     "\x7d"]

/-- The file of an exception. -/
def exceptionFile (e : ExceptionClass) : String :=
  if e.name = Namespace.apiException then apiExceptionFile e else unexpectedResponseFile e

end OpenApiClient.Php
