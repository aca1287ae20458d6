import MemcacheZipserve.Text
import MemcacheZipserve.Compare
import MemcacheZipserve.Prog
import MemcacheZipserve.Archive
import MemcacheZipserve.Handler
import MemcacheZipserve.Routing
import MemcacheZipserve.Fallback
import MemcacheZipserve.Index
import MemcacheZipserve.Meaning
import MemcacheZipserve.Server
import MemcacheZipserve.Negotiation
import MemcacheZipserve.Headers
import MemcacheZipserve.Transparency
import MemcacheZipserve.Repeat
import MemcacheZipserve.Calls
import MemcacheZipserve.Language
