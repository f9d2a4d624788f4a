import DistributionOperator.Distribution.Basic

/-! Addresses of running servers. -/

namespace DistributionOperator

/-- A base address without slashes at its end. -/
structure Endpoint where
  baseUrl : String
deriving DecidableEq

namespace Endpoint

def ofUrl (url : String) : Endpoint :=
  ⟨String.ofList (url.toList.reverse.dropWhile (· = '/')).reverse⟩

def inCluster (service space : String) (port : Int32) : Endpoint :=
  ofUrl ("http://" ++ service ++ "." ++ space ++ ".svc.cluster.local:" ++ toString port.toInt)

def url (e : Endpoint) (path : String) : String := e.baseUrl ++ path

def healthPath : String := "/v1/health"

def providersPath : String := "/v1/providers"

end Endpoint

def Distribution.endpoint (d : Distribution) : Endpoint :=
  .inCluster d.serviceName d.space d.servicePort

end DistributionOperator
