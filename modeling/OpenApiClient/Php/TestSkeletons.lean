import OpenApiClient.Php.Classes

/-!
# Test skeletons in PHP

Beside each manager and each resource a test may be written that checks that the class can be
reached, holds its values and has its methods.
-/

namespace OpenApiClient.Php

open Text

/-- The tests that the methods of a class are there. -/
def definedLines (className : String) (routes : List Route) : List String :=
  routes.flatMap fun r =>
    ["",
     "    public function test" ++ capitalizeFirst r.id ++ "IsDefined()",
     "    \x7b",
     "        $this->assertTrue(method_exists(" ++ className ++ "::class, " ++ quote r.id ++ "));",
     "    \x7d"]

/-- The beginning of a test. -/
def testHeadLines (client : ClientClass) (c : GeneratedClass) (folder kind : String)
    (always : List String) : List String :=
  headLines (client.space ++ "\\Tests\\" ++ folder)
    (always ++ [client.space ++ "\\" ++ client.name, c.space ++ "\\" ++ c.name]) [] ++
  ["/**", " * Tests of the " ++ c.name ++ " " ++ kind, " */",
   "class " ++ c.name ++ "Test extends TestCase", "\x7b"]

/-- The test of a manager. -/
def managerTestFile (client : ClientClass) (c : GeneratedClass) : String :=
  ofLines <|
    testHeadLines client c "Managers" "manager"
      ["GuzzleHttp\\Client as HttpClient", "GuzzleHttp\\Handler\\MockHandler",
       "GuzzleHttp\\HandlerStack", "PHPUnit\\Framework\\TestCase"] ++
    ["    /**",
     "     * @return " ++ client.name,
     "     */",
     "    protected function createClient(MockHandler $handler)",
     "    \x7b",
     "        $httpClient = new HttpClient(['handler' => HandlerStack::create($handler)]);",
     "",
     "        return new " ++ client.name ++ "(" ++
       (if client.usesBearerToken then "null, " else "") ++ "$httpClient);",
     "    \x7d",
     "",
     "    public function testManagerIsExposedByTheClient()",
     "    \x7b",
     "        $client = $this->createClient(new MockHandler());",
     "",
     "        $this->assertInstanceOf(" ++ c.name ++ "::class, $client->get" ++ c.name ++
       "Manager());",
     "    \x7d"] ++ definedLines c.name c.routes ++ ["\x7d"]

/-- The test of a resource. -/
def resourceTestFile (client : ClientClass) (c : ResourceClass) : String :=
  ofLines <|
    testHeadLines client c.toGeneratedClass "Resources" "resource"
      ["PHPUnit\\Framework\\TestCase"] ++
    ["    public function testConstructorStoresFieldValues()",
     "    \x7b",
     "        $resource = new " ++ c.name ++ "(",
     "            new " ++ client.name ++ "()" ++
       join "" (c.properties.map fun p => ",\n            " ++ quote p.name),
     "        );",
     ""] ++
    c.properties.map (fun p =>
      "        $this->assertSame(" ++ quote p.name ++ ", $resource->" ++ getterOf p.name ++
        "());") ++
    ["        $this->assertInstanceOf(\\JsonSerializable::class, $resource);",
     "    \x7d"] ++ definedLines c.name c.routes ++ ["\x7d"]

end OpenApiClient.Php
